import MiniJava.Proofs.Emission.Naming
import MiniJava.Proofs.Lowering.Correspondence

/-!
# Lowering from other counters

The counters for temporaries and labels run on from class to class, in words of 32 bits. If lowering
starts from counters that are further on, it comes to counters that are as much further on, and
writes the same code with all temporaries and labels renumbered (`ClassDecl.lower_shifted`). What is
added to a number is added in words, so this goes on behind the last word. It needs that no
parameter or local is named as a temporary.
-/

namespace MiniJava

open Ir Lower

/-! ## Shifted names -/

/-- The counters, further on by `k`. -/
def Counters.shift (c k : Counters UInt32) : Counters UInt32 :=
  ⟨c.temps + k.temps, c.labels + k.labels⟩

/-- A temporary with a word that is further on by `t`; other names stay. -/
def shiftTemp (t : UInt32) (x : String) : String :=
  if x = tempName (UInt32.ofNat (splitNumber x).2).toNat then
    tempName (UInt32.ofNat (splitNumber x).2 + t).toNat
  else x

theorem shiftTemp_tempName (t k : UInt32) :
    shiftTemp t (tempName k.toNat) = tempName (k + t).toNat := by
  rw [shiftTemp, splitNumber_tempName, UInt32.ofNat_toNat, if_pos rfl]

theorem shiftTemp_of_ne {x : String} (h : ∀ k : UInt32, x ≠ tempName k.toNat) (t : UInt32) :
    shiftTemp t x = x :=
  if_neg (h _)

theorem shiftTemp_injective (t : UInt32) : Function.Injective (shiftTemp t) := by
  intro x y h
  by_cases hx : ∃ j : UInt32, x = tempName j.toNat
  · obtain ⟨j, rfl⟩ := hx
    rw [shiftTemp_tempName] at h
    by_cases hy : ∃ k : UInt32, y = tempName k.toNat
    · obtain ⟨k, rfl⟩ := hy
      rw [shiftTemp_tempName] at h
      have hwords : j + t = k + t := UInt32.toNat_inj.1 (tempName_inj h)
      rw [UInt32.add_left_inj t |>.1 hwords]
    · rw [shiftTemp_of_ne (not_exists.1 hy)] at h
      exact absurd ⟨j + t, h.symm⟩ hy
  · rw [shiftTemp_of_ne (not_exists.1 hx)] at h
    by_cases hy : ∃ k : UInt32, y = tempName k.toNat
    · obtain ⟨k, rfl⟩ := hy
      rw [shiftTemp_tempName] at h
      exact absurd ⟨k + t, h⟩ hx
    · rwa [shiftTemp_of_ne (not_exists.1 hy)] at h

theorem shiftTemp_of_apart {x : String} (h : ∀ k, x ≠ tempName k) (t : UInt32) :
    shiftTemp t x = x :=
  shiftTemp_of_ne (fun k => h k.toNat) t

/-- The new names of temporaries. -/
def tempNaming (t : UInt32) : Naming :=
  ⟨shiftTemp t, shiftTemp_injective t, shiftTemp_of_apart this_ne_tempName t⟩

/-- The label of a branch or loop with the word `n - l + l'` in place of `n`; other labels stay. -/
def shiftLabel (l l' : UInt32) (label : String) : String :=
  if (splitNumber label).1 ∈ labelStems then
    (splitNumber label).1 ++ toString (UInt32.ofNat (splitNumber label).2 - l + l').toNat
  else label

theorem shiftLabel_of_mem {p : String} (hp : p ∈ labelStems) (l l' : UInt32) (n : Nat) :
    shiftLabel l l' (p ++ toString n) = p ++ toString (UInt32.ofNat n - l + l').toNat := by
  rw [shiftLabel, splitNumber_append (isStem_of_mem hp), if_pos hp]

theorem shiftLabel_of_not_mem {p : String} (hstem : IsStem p) (hp : p ∉ labelStems) (l l' : UInt32)
    (n : Nat) : shiftLabel l l' (p ++ toString n) = p ++ toString n := by
  rw [shiftLabel, splitNumber_append hstem, if_neg hp]

theorem fixesComparisons_shiftLabel (l l' : UInt32) :
    Assembly.FixesComparisons (shiftLabel l l') where
  trueLabel := fun n => shiftLabel_of_not_mem (p := "cmp_true_") (by decide) (by decide) l l' n
  doneLabel := fun n => shiftLabel_of_not_mem (p := "cmp_end_") (by decide) (by decide) l l' n

/-- To count from `l'` is to count from `l` and to move from there. -/
theorem shiftLabel_shiftLabel (l l' : UInt32) (label : String) :
    shiftLabel l l' (shiftLabel 0 l label) = shiftLabel 0 l' label := by
  by_cases h : (splitNumber label).1 ∈ labelStems
  · rw [shiftLabel.eq_def 0 l, if_pos h, shiftLabel_of_mem h, UInt32.ofNat_toNat,
      UInt32.add_sub_cancel, shiftLabel, if_pos h]
  · rw [shiftLabel.eq_def 0 l, if_neg h, shiftLabel, if_neg h, shiftLabel, if_neg h]

/-! ## Lowering side by side -/

/-- Lowering beside lowering from counters that are further on by `k`. -/
def Correspondence.shifting (k : Counters UInt32) : Correspondence UInt32 UInt32 where
  counters c c' := c' = c.shift k
  var x x' := x' = shiftTemp k.temps x
  label l l' := l' = shiftLabel 0 k.labels l
  this := (shiftTemp_of_apart this_ne_tempName k.temps).symm
  temp := by
    rintro c _ rfl
    refine ⟨(shiftTemp_tempName k.temps c.temps).symm, ?_⟩
    exact congrArg (Counters.mk · _) (Counting.next_add c.temps k.temps)
  branch := by
    rintro c _ rfl
    refine ⟨fun p hp => ?_, ?_⟩
    · refine Eq.trans ?_ (shiftLabel_of_mem hp 0 k.labels c.labels.toNat).symm
      rw [UInt32.ofNat_toNat, UInt32.sub_zero]
      rfl
    · exact congrArg (Counters.mk _ ·) (Counting.next_add c.labels k.labels)

namespace Ir

variable {k : Counters UInt32}

theorem Operand.Corresponds.eq_withNames {o o' : Operand} (h : o.Corresponds (.shifting k) o') :
    o' = o.withNames (tempNaming k.temps) := by
  induction h with
  | literal | cls => rfl
  | var ty p hx =>
    cases hx
    rfl
  | item ty p hx _ ih =>
    cases hx
    rw [Operand.withNames, ih]
    rfl

theorem Operand.map_withNames_of_corresponds {os os' : List Operand}
    (h : List.Forall₂ (Operand.Corresponds (.shifting k)) os os') :
    os' = os.map (Operand.withNames (tempNaming k.temps)) := by
  induction h with
  | nil => rfl
  | cons ho _ ih => rw [List.map_cons, ho.eq_withNames, ih]

theorem Instr.Corresponds.eq_withNames {i i' : Instr} (h : i.Corresponds (.shifting k) i') :
    i' = i.withNames (tempNaming k.temps) (shiftLabel 0 k.labels) := by
  induction h with
  | assign ty hd _ ih => rw [hd.eq_withNames, ih, Instr.withNames]
  | value ho | not ty ho | newArray ty ho | length ho | putField f ho =>
    rw [ho.eq_withNames, Instr.withNames]
  | binary op ty hl hr => rw [hl.eq_withNames, hr.eq_withNames, Instr.withNames]
  | call kind m params ty ht hargs =>
    rw [ht.eq_withNames, Operand.map_withNames_of_corresponds hargs, Instr.withNames]
  | goto hl | label hl => rw [hl, Instr.withNames]
  | branch ho hl => rw [ho.eq_withNames, hl, Instr.withNames]
  | ret ty ho => rw [ho.eq_withNames, Instr.withNames, Option.map_some]
  | newObject | getField | retNone => rfl

theorem map_withNames_of_corresponds {is is' : List Instr}
    (h : List.Forall₂ (Instr.Corresponds (.shifting k)) is is') :
    is' = is.map (Instr.withNames (tempNaming k.temps) (shiftLabel 0 k.labels)) := by
  induction h with
  | nil => rfl
  | cons hi _ ih => rw [List.map_cons, hi.eq_withNames, ih]

theorem Naming.map_symbol_of_fixed {ν : Naming} {vs : List Symbol}
    (h : ∀ v ∈ vs, v.name = ν.var v.name) : vs.map ν.symbol = vs := by
  conv_rhs => rw [← List.map_id' vs]
  refine List.map_congr_left fun v hv => ?_
  rw [Naming.symbol, ← h v hv]

theorem Method.Corresponds.eq_withNames {m m' : Method} (h : m.Corresponds (.shifting k) m') :
    m' = m.withNames (tempNaming k.temps) (shiftLabel 0 k.labels) := by
  have hparams : m.params.map (tempNaming k.temps).symbol = m.params :=
    Naming.map_symbol_of_fixed fun v hv => h.vars v (List.mem_append_left _ hv)
  have hlocals : m.locals.map (tempNaming k.temps).symbol = m.locals :=
    Naming.map_symbol_of_fixed fun v hv => h.vars v (List.mem_append_right _ hv)
  rw [Method.withNames, hparams, hlocals, ← map_withNames_of_corresponds h.code]
  exact h.heading

theorem ClassUnit.Corresponds.named {u u' : ClassUnit} (h : u.Corresponds (.shifting k) u') :
    u.Named (shiftLabel 0 k.labels) u' := by
  have hmethods := h.methods.imp fun m m' hm =>
    (⟨tempNaming k.temps, hm.eq_withNames⟩ : ∃ ν, m' = m.withNames ν (shiftLabel 0 k.labels))
  rw [h.heading]
  exact ⟨rfl, rfl, rfl, rfl, hmethods⟩

/-- Lowering asks for no register tables. -/
theorem ClassUnit.Corresponds.frozen {u u' : ClassUnit} (h : u.Corresponds (.shifting k) u') :
    ∀ m ∈ u.methods, m.frozen = none := by
  intro m hm
  obtain ⟨m', -, hmethod⟩ := exists_mem_of_forall₂ h.methods.flip hm
  exact hmethod.frozen

end Ir

/-! ## Classes -/

/-- No parameter or local of the class is named as a temporary. -/
def ClassSymbols.Apart (cls : ClassSymbols) : Prop :=
  ∀ m ∈ cls.methods, ∀ v ∈ m.params ++ m.locals, ∀ j, v.name ≠ tempName j

/-- **Lowering from other counters.** Lowering a class from counters that are further on stops at
the same fault, or gives the class with shifted names. -/
theorem ClassDecl.lower_shifted {table : SymbolTable} (types : TypeMap) {d : ClassDecl}
    (hd : ∀ cls, table.class? d.name.node = some cls → cls.Apart) (imports : List String)
    (c k : Counters UInt32) :
    ResultsAlike Eq
      (fun u u' => u.Named (shiftLabel 0 k.labels) u' ∧ ∀ m ∈ u.methods, m.frozen = none)
      ((d.lower table types imports).run c).result
      ((d.lower table types imports).run (c.shift k)).result := by
  have hkeeps : ∀ cls, table.class? d.name.node = some cls →
      ∀ m ∈ cls.methods, (Correspondence.shifting k).Keeps m :=
    fun cls hcls m hm v hv => (shiftTemp_of_apart (hd cls hcls m hm v hv) k.temps).symm
  have hboth : Build.Corresponds (.shifting k) (ClassUnit.Corresponds (.shifting k))
      (d.lower table types imports) (d.lower table types imports) :=
    ClassDecl.lower_corresponds hkeeps imports
  exact (hboth c _ rfl).result.mono (fun _ _ he => he) fun u u' hu => ⟨hu.named, hu.frozen⟩

end MiniJava
