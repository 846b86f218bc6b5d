import MiniJava.Proofs.Annotation.Typing
import MiniJava.Proofs.Lowering.Values

/-!
# Where lowering an accepted program fails

Lowering has its own rules about types and names. On an accepted program they are met, with two
exceptions: a call that gives no value stands where a value is used, or an item is taken of the name
of a class. The annotator reports neither.

**Theorem** (`lower_error_iff`). Lowering an accepted program stops with a fault exactly if one of
the two is found in a method body, and the fault is never about a name that is missing.

Both directions are inductions on the tree. If an expression has been lowered, then none of the two
is in it (`Expr.Lowers.sound`). If lowering an expression fails, then one of the two is in it
(`Expr.lower_failsOnly`); here the notes of the annotator say that every type is there which
lowering asks for (`Expr.Settled`).
-/

namespace MiniJava

open Ir Lower

/-- The fault is about a name that the symbol table does not have. -/
def LowerError.isMissingName : LowerError → Bool
  | unknownVariable .. | missingClass _ | missingMethod .. => true
  | unresolved _ | voidValue .. | notIndexable .. => false

namespace Expr

/-- A call that is annotated as one that gives no value. -/
def isVoidCall (types : TypeMap) : Expr → Bool
  | call n _ _ _ => types.get? n.id == some .void
  | _ => false

/-- Inside the expression there is no call without a value and no item of a class name. -/
def Sound (sc : Scope) (types : TypeMap) (e : Expr) : Prop :=
  ∀ d ∈ e.subtree, d.isVoidCall types = false ∧ d.indexesClassName sc = false

variable {sc : Scope} {types : TypeMap} {mk : Bool} {e : Expr}

theorem sound_iff : e.Sound sc types ↔
    (e.isVoidCall types = false ∧ e.indexesClassName sc = false) ∧
      ∀ d ∈ e.children, d.Sound sc types := by
  rw [Sound, subtree_eq_cons, List.forall_mem_cons]
  simp only [List.mem_flatMap, Sound]
  grind

/-! ## Lowered expressions -/

/-- What is under parentheses is lowered as if there were none. -/
theorem Lowers.strip {c c' : Counters} {o : Operand} {code : List Instr}
    (h : Lowers sc types mk e c o c' code) : Lowers sc types mk e.strip c o c' code := by
  induction e using Expr.induction with
  | paren n e ih => exact ih (lowers_paren.1 h)
  | _ => exact h

theorem LowersAll.members {es : List Expr} {c c' : Counters} {os : List Operand} {code : List Instr}
    (h : LowersAll sc types mk es c os c' code) :
    ∀ e ∈ es, ∃ c₁ o c₂ k, Lowers sc types mk e c₁ o c₂ k := by
  induction es generalizing c os code with
  | nil => nofun
  | cons e es ih =>
    obtain ⟨a, c₁, k₁, as, k₂, he, hes, -, -⟩ := lowersAll_cons.1 h
    exact List.forall_mem_cons.2 ⟨⟨c, a, c₁, k₁, he⟩, ih hes⟩

theorem Lowers.sound {c c' : Counters} {o : Operand} {code : List Instr}
    (h : Lowers sc types mk e c o c' code) : e.Sound sc types := by
  induction e using Expr.induction generalizing c c' o code with
  | int | bool | var | this | newObject => exact sound_iff.2 ⟨⟨rfl, rfl⟩, nofun⟩
  | not n e ih =>
    obtain ⟨a, c₁, k₁, k₂, he, -, -⟩ := lowers_not.1 h
    exact sound_iff.2 ⟨⟨rfl, rfl⟩, List.forall_mem_singleton.2 (ih he)⟩
  | binary n op l r ihl ihr =>
    obtain ⟨ty, a, c₁, k₁, b, c₂, k₂, k₃, -, hl, hr, -, -⟩ := lowers_binary.1 h
    exact sound_iff.2 ⟨⟨rfl, rfl⟩,
      List.forall_mem_cons.2 ⟨ihl hl, List.forall_mem_singleton.2 (ihr hr)⟩⟩
  | call n r m args ihr ihargs =>
    obtain ⟨ty, as, c₁, k₁, t, c₂, k₂, k₃, hty, hvoid, hargs, hr, -, -⟩ := lowers_call.1 h
    refine sound_iff.2 ⟨⟨by simpa [isVoidCall, hty] using hvoid, rfl⟩, ?_⟩
    refine List.forall_mem_cons.2 ⟨ihr hr, ?_⟩
    intro a ha
    obtain ⟨c₁, o, c₂, k, hlow⟩ := hargs.members a ha
    exact ihargs a ha hlow
  | newArray n e ih =>
    obtain ⟨ty, a, c₁, k₁, k₂, -, he, -, -⟩ := lowers_newArray.1 h
    exact sound_iff.2 ⟨⟨rfl, rfl⟩, List.forall_mem_singleton.2 (ih he)⟩
  | length n a ih =>
    obtain ⟨b, c₁, k₁, k₂, ha, -, -⟩ := lowers_length.1 h
    exact sound_iff.2 ⟨⟨rfl, rfl⟩, List.forall_mem_singleton.2 (ih ha)⟩
  | index n a i iha ihi =>
    obtain ⟨ty, x, t, p, c₁, k₁, j, c₂, k₂, k₃, -, ha, hi, -, -⟩ := lowers_index.1 h
    refine sound_iff.2 ⟨⟨rfl, ?_⟩,
      List.forall_mem_cons.2 ⟨iha ha, List.forall_mem_singleton.2 (ihi hi)⟩⟩
    rw [indexesClassName]
    split
    · next k y hvar =>
      -- A class name would have been lowered to itself, and not to a variable.
      have hlow := ha.strip
      rw [hvar] at hlow
      rcases lowers_var.1 hlow with ⟨s, hs, -⟩ | ⟨b, hb, -⟩ | ⟨-, -, hcls, -⟩
      · simp [hs]
      · simp [hb]
      · cases hcls
    · rfl
  | paren n e ih =>
    exact sound_iff.2 ⟨⟨rfl, rfl⟩, List.forall_mem_singleton.2 (ih (lowers_paren.1 h))⟩

/-! ## Faults in expressions -/

/-- The fault comes from something that is wrong inside the expression. -/
def Blames (sc : Scope) (types : TypeMap) (e : Expr) (fault : LowerError) : Prop :=
  ¬e.Sound sc types ∧ fault.isMissingName = false

theorem Blames.of_child {d : Expr} {fault : LowerError} (hd : d ∈ e.children)
    (h : d.Blames sc types fault) : e.Blames sc types fault :=
  ⟨fun hsound => h.1 ((sound_iff.1 hsound).2 d hd), h.2⟩

theorem typeOf_failsOnly {n : Node} {P : LowerError → Prop}
    (h : (types.get? n.id).isSome = true) : (typeOf types n).FailsOnly P := by
  obtain ⟨ty, hty⟩ := Option.isSome_iff_exists.1 h
  rw [typeOf, hty]
  exact .pure ty

theorem temp_failsOnly {ty : Ty} {rhs : Instr} {P : LowerError → Prop} :
    (temp ty rhs).FailsOnly P := nofun

theorem lowerAll_eq_mapM' (es : List Expr) :
    lowerAll sc types mk es = es.mapM' (lower sc types mk) := by
  induction es with
  | nil => rfl
  | cons e es ih => rw [lowerAll, ih]; rfl

theorem value_strip (e : Expr) : (e.strip.annotate sc).value = (e.annotate sc).value := by
  induction e using Expr.induction with
  | paren n e ih => simp [strip, annotate, ih]
  | _ => rfl

/-- What is indexed in a sound expression is an array, and so the item has a type. -/
theorem Settled.index_array {n : Node} {a i : Expr} (h : (index n a i).Settled sc types)
    (hsound : (index n a i).Sound sc types) :
    (types.get? n.id).isSome = true ∧ ∃ element, (a.annotate sc).value = some (.array element) := by
  have hnotes := h.notes
  simp only [annotate, Noted.notes_bind, upheld_append] at hnotes
  obtain ⟨ha, -, -, hindex, hsettle⟩ := hnotes
  rcases indexTy_cases (upheld_iff_hold.1 hindex) with ⟨element, harray, hvalue⟩ | ⟨hnone, hcall⟩
  · rw [hvalue] at hsettle
    exact ⟨upheld_settle.1 hsettle rfl, element, harray⟩
  · rcases cases_of_untyped (upheld_iff_hold.1 ha) hnone with
      ⟨k, r, m, args, he⟩ | ⟨k, x, he, hres⟩ | ⟨d, hd, hclass⟩
    · exact absurd he (hcall k r m args)
    · have hclass := (sound_iff.1 hsound).1.2
      simp [indexesClassName, he, hres] at hclass
    · have hmem : a ∈ (index n a i).children := List.mem_cons_self ..
      have hclass' := ((sound_iff.1 hsound).2 a hmem d hd).2
      rw [hclass] at hclass'
      cases hclass'

/-- An array is lowered to a variable. -/
theorem Lowers.isVar_of_array {c c' : Counters} {o : Operand} {code : List Instr} {element : Ty}
    (h : Lowers sc types mk e c o c' code)
    (harray : (e.annotate sc).value = some (.array element)) : ∃ x ty p, o = .var x ty p := by
  rw [← value_strip] at harray
  rcases h.operand with hvar | ⟨v, ty, -, hliteral⟩ | ⟨cl, hclass, -⟩
  · exact hvar
  · rw [isLiteral] at hliteral
    split at hliteral
    · next he => simp [he, annotate] at harray
    · next he => simp [he, annotate] at harray
    · cases hliteral
  · rw [className?] at hclass
    split at hclass
    · next n x he =>
      have hres : sc.resolve x = none := by
        cases hx : sc.resolve x with
        | none => rfl
        | some b => simp [hx] at hclass
      simp [he, annotate, varTy, hres] at harray
    · cases hclass

theorem failsOnly_child {α : Type} {d : Expr} {x : Lower α} (h : e.Settled sc types)
    (hd : d ∈ e.children) (ih : d.Settled sc types → x.FailsOnly (d.Blames sc types)) :
    x.FailsOnly (e.Blames sc types) :=
  (ih (h.children d hd)).mono fun _ => .of_child hd

/-- Lowering fails only where something is wrong inside the expression. -/
theorem lower_failsOnly (h : e.Settled sc types) :
    (e.lower sc types mk).FailsOnly (e.Blames sc types) := by
  induction e using Expr.induction with
  | int | bool | this => exact .pure _
  | var n x =>
    rw [lower, lowerVar]
    have hnotes := h.notes
    simp only [annotate, varTy, Noted.notes_bind, upheld_append] at hnotes
    split
    · exact temp_failsOnly
    · exact .pure _
    · next hres =>
      simp [hres, Problem.severity] at hnotes
      rw [if_pos hnotes]
      exact .pure _
  | not n e ih =>
    exact .bind (failsOnly_child h (by simp [children]) ih) fun _ => temp_failsOnly
  | binary n op l r ihl ihr =>
    have hnotes := h.notes
    simp only [annotate, Noted.notes_bind, upheld_append] at hnotes
    obtain ⟨-, -, hbinary, hsettle⟩ := hnotes
    -- An operator has its type whatever its operands are, so a type is recorded for it.
    rw [value_binaryTy (upheld_iff_hold.1 hbinary)] at hsettle
    have hty : (types.get? n.id).isSome = true := upheld_settle.1 hsettle rfl
    exact .bind (typeOf_failsOnly hty) fun _ =>
      .bind (failsOnly_child h (by simp [children]) ihl) fun _ =>
      .bind (failsOnly_child h (by simp [children]) ihr) fun _ => temp_failsOnly
  | call n r m args ihr ihargs =>
    refine .bind_run (typeOf_failsOnly (h.typed n r m args rfl)) ?_
    intro ty c c' code hrun
    obtain ⟨hty, -, -⟩ := typeOf_ok_iff.1 hrun
    -- The one fault of a call: it gives nothing, but stands where a value is wanted.
    by_cases hvoid : ty = .void
    · simp only [hvoid, beq_self_eq_true, if_true]
      refine .fail ⟨fun hsound => ?_, rfl⟩
      simpa [isVoidCall, hty, hvoid] using (sound_iff.1 hsound).1.1
    · simp only [beq_iff_eq, hvoid, if_false, lowerAll_eq_mapM']
      refine .bind (.mapM' fun a ha => ?_) fun _ =>
        .bind (failsOnly_child h (by simp [children]) ihr) fun _ => temp_failsOnly
      exact failsOnly_child h (by simp [children, ha]) (ihargs a ha)
  | newObject n c => exact .bind temp_failsOnly fun _ => .bind (.emit _) fun _ => .pure _
  | newArray n e ih =>
    have hty : (types.get? n.id).isSome = true := by
      have hnotes := h.notes
      simp only [annotate, Noted.notes_bind, upheld_append] at hnotes
      exact upheld_settle.1 hnotes.2.2 rfl
    exact .bind (typeOf_failsOnly hty) fun _ =>
      .bind (failsOnly_child h (by simp [children]) ih) fun _ => temp_failsOnly
  | length n a ih =>
    exact .bind (failsOnly_child h (by simp [children]) ih) fun _ => temp_failsOnly
  | index n a i iha ihi =>
    -- An item has two faults: no type is recorded for it, or its array is no variable. A sound
    -- expression has neither.
    refine .bind ?_ fun ty => .bind_run (failsOnly_child h (by simp [children]) iha) ?_
    · rw [typeOf]
      split
      · exact .pure _
      · next hnone =>
        refine .fail ⟨fun hsound => ?_, rfl⟩
        simpa [hnone] using (h.index_array hsound).1
    · intro base c c' code hlow
      refine .bind (failsOnly_child h (by simp [children]) ihi) fun place => .bind ?_ fun _ =>
        temp_failsOnly
      by_cases hsound : (index n a i).Sound sc types
      · obtain ⟨-, element, harray⟩ := h.index_array hsound
        obtain ⟨x, t, p, rfl⟩ := Lowers.isVar_of_array hlow harray
        exact .pure _
      · cases base with
        | var x t p => exact .pure _
        | literal | item | cls => exact .fail ⟨hsound, rfl⟩
  | paren n e ih => exact failsOnly_child h (by simp [children]) ih

/-! ## Expressions as statements -/

/-- The parts whose values are used when the expression stands as a statement. A call there need not
give a value. -/
def usedParts : Expr → List Expr
  | call _ r _ args => r :: args
  | paren _ e => e.usedParts
  | e => [e]

theorem LowersEffect.sound {c c' : Counters} {code : List Instr}
    (h : LowersEffect sc types e c c' code) : ∀ d ∈ e.usedParts, d.Sound sc types := by
  induction e using Expr.induction with
  | paren n e ih => exact ih (lowersEffect_paren.1 h)
  | call n r m args =>
    obtain ⟨as, c₁, k₁, t, k₂, hargs, hr, -⟩ := lowersEffect_call.1 h
    refine List.forall_mem_cons.2 ⟨hr.sound, fun a ha => ?_⟩
    obtain ⟨c₁, o, c₂, k, hlow⟩ := hargs.members a ha
    exact hlow.sound
  | _ =>
    obtain ⟨o, hlow⟩ := (lowersEffect_plain (by simp [IsPlain])).1 h
    exact List.forall_mem_singleton.2 hlow.sound

/-- Every item is inside one of the used parts. -/
theorem filter_usedParts (e : Expr) :
    (e.usedParts.flatMap subtree).filter (indexesClassName sc) =
      e.subtree.filter (indexesClassName sc) := by
  induction e using Expr.induction with
  | paren n e ih =>
    rw [usedParts, ih, subtree, List.filter_cons_of_neg (by simp [indexesClassName])]
  | call n r m args =>
    rw [usedParts, subtree, List.filter_cons_of_neg (by simp [indexesClassName]),
      subtrees_eq_flatMap, List.flatMap_cons]
  | _ => simp [usedParts]

/-- The fault comes from one of the expressions. -/
def BlamesOne (sc : Scope) (types : TypeMap) (es : List Expr) (fault : LowerError) : Prop :=
  ∃ e ∈ es, e.Blames sc types fault

theorem failsOnly_of_mem {α : Type} {x : Lower α} {es : List Expr} (hmem : e ∈ es)
    (h : x.FailsOnly (e.Blames sc types)) : x.FailsOnly (BlamesOne sc types es) :=
  h.mono fun _ hblames => ⟨e, hmem, hblames⟩

theorem failsOnly_of_subset {α : Type} {x : Lower α} {es es' : List Expr} (hsub : es ⊆ es')
    (h : x.FailsOnly (BlamesOne sc types es)) : x.FailsOnly (BlamesOne sc types es') :=
  h.mono fun _ ⟨e, he, hblames⟩ => ⟨e, hsub he, hblames⟩

theorem lowerEffect_failsOnly (h : Upheld types (e.annotate sc).notes) :
    (e.lowerEffect sc types).FailsOnly (BlamesOne sc types e.usedParts) := by
  induction e using Expr.induction with
  | paren n e ih =>
    simp only [annotate, Noted.notes_bind, upheld_append] at h
    exact ih h.1
  | call n r m args =>
    obtain ⟨hr, hargs⟩ := settled_of_call h
    rw [lowerEffect, lowerAll_eq_mapM']
    refine .bind (.mapM' fun a ha => ?_) fun _ => .bind ?_ fun _ => .emit _
    · exact failsOnly_of_mem (List.mem_cons_of_mem _ ha) (lower_failsOnly (hargs a ha))
    · exact failsOnly_of_mem (List.mem_cons_self ..) (lower_failsOnly hr)
  | _ =>
    refine .bind (failsOnly_of_mem (List.mem_singleton_self _) (lower_failsOnly ⟨h, ?_⟩)) fun _ =>
      .pure _
    simp [Typed, strip]

end Expr

/-! ## Statements -/

namespace Stmt

open MiniJava.Expr

mutual

/-- The expressions whose values are used in a statement or in one nested in it. -/
def values : Stmt → List Expr
  | varDecl .. => []
  | block _ body => valuesAll body
  | ifThen _ c t => c :: t.values
  | ifElse _ c t e => c :: (t.values ++ e.values)
  | whileLoop _ c b => c :: b.values
  | expr _ e => e.usedParts
  | assign _ _ v => [v]
  | arrayAssign _ _ i v => [i, v]
  | ret _ v => v.toList

def valuesAll : List Stmt → List Expr
  | [] => []
  | s :: ss => s.values ++ valuesAll ss

end

theorem valuesAll_eq_flatMap (ss : List Stmt) : valuesAll ss = ss.flatMap values := by
  induction ss with
  | nil => rfl
  | cons s ss ih => simp [valuesAll, ih]

variable {sc : Scope} {types : TypeMap} {s : Stmt}

theorem LowersAll.members {ss : List Stmt} {c c' : Counters} {code : List Instr}
    (h : LowersAll sc types ss c c' code) : ∀ s ∈ ss, ∃ c₁ c₂ k, Lowers sc types s c₁ c₂ k := by
  induction ss generalizing c code with
  | nil => nofun
  | cons s ss ih =>
    obtain ⟨c₁, k₁, k₂, hs, hss, -⟩ := lowersAll_cons.1 h
    exact List.forall_mem_cons.2 ⟨⟨c, c₁, k₁, hs⟩, ih hss⟩

theorem Lowers.sound {c c' : Counters} {code : List Instr} (h : Lowers sc types s c c' code) :
    ∀ e ∈ s.values, e.Sound sc types := by
  induction s using Stmt.induction generalizing c c' code with
  | varDecl sp d => nofun
  | block sp body ih =>
    rw [values, valuesAll_eq_flatMap]
    intro e he
    obtain ⟨s, hs, he⟩ := List.mem_flatMap.1 he
    obtain ⟨c₁, c₂, k, hlow⟩ := (lowers_block.1 h).members s hs
    exact ih s hs hlow e he
  | ifThen sp cond t ih =>
    obtain ⟨o, c₁, k₁, k₂, hcond, ht, -⟩ := lowers_ifThen.1 h
    exact List.forall_mem_cons.2 ⟨hcond.sound, ih ht⟩
  | ifElse sp cond t e iht ihe =>
    obtain ⟨o, c₁, k₁, c₂, k₂, k₃, hcond, he, ht, -⟩ := lowers_ifElse.1 h
    exact List.forall_mem_cons.2 ⟨hcond.sound, List.forall_mem_append.2 ⟨iht ht, ihe he⟩⟩
  | whileLoop sp cond b ih =>
    obtain ⟨o, c₁, k₁, k₂, hcond, hb, -⟩ := lowers_whileLoop.1 h
    exact List.forall_mem_cons.2 ⟨hcond.sound, ih hb⟩
  | expr sp e => exact (lowers_expr.1 h).sound
  | assign sp x v =>
    obtain ⟨b, o, k, -, hv, -⟩ := lowers_assign.1 h
    exact List.forall_mem_singleton.2 hv.sound
  | arrayAssign sp x i v =>
    obtain ⟨b, ty, y, t, p, c₁, k₁, j, c₂, k₂, o, k₃, -, -, -, hi, hv, -⟩ := lowers_arrayAssign.1 h
    exact List.forall_mem_cons.2 ⟨hi.sound, List.forall_mem_singleton.2 hv.sound⟩
  | ret sp v =>
    cases v with
    | none => nofun
    | some v =>
      obtain ⟨o, k, hv, -⟩ := lowers_ret_some.1 h
      exact List.forall_mem_singleton.2 hv.sound

/-- Statements in a row fail only as one of them does. -/
theorem lowerAll_failsOnly {ss : List Stmt}
    (h : ∀ s ∈ ss, (s.lower sc types).FailsOnly (BlamesOne sc types s.values)) :
    (lowerAll sc types ss).FailsOnly (BlamesOne sc types (valuesAll ss)) := by
  induction ss with
  | nil => exact .pure ()
  | cons s ss ih =>
    rw [List.forall_mem_cons] at h
    exact .bind (failsOnly_of_subset (List.subset_append_left ..) h.1) fun _ =>
      failsOnly_of_subset (List.subset_append_right ..) (ih h.2)

theorem upheld_of_annotateAll {ss : List Stmt} (h : Upheld types (annotateAll sc ss).notes) :
    ∀ s ∈ ss, Upheld types (s.annotate sc).notes := by
  simp only [upheld_iff_hold] at h ⊢
  exact hold_of_annotateAll h

theorem resolveTarget_failsOnly {x : Located String} {P : LowerError → Prop}
    (h : ∃ b, sc.resolve x.node = some b) : (resolveTarget sc x).FailsOnly P := by
  obtain ⟨b, hb⟩ := h
  rw [resolveTarget, hb]
  exact .pure b

theorem itemTy_failsOnly {x : Located String} {b : Binding} {element : Ty} {P : LowerError → Prop}
    (h : b.ty = .array element) : (itemTy x b).FailsOnly P := by
  rw [itemTy, h]
  exact .pure element

theorem arrayOperand_failsOnly {x : Located String} {b : Binding} {P : LowerError → Prop} :
    (arrayOperand x b).FailsOnly P := by
  cases b with
  | loc s => exact .pure _
  | param ordinal s => exact .pure _
  | field s => exact temp_failsOnly

/-- Lowering a statement fails only where something is wrong in an expression whose value is
used. -/
theorem lower_failsOnly (h : Upheld types (s.annotate sc).notes) :
    (s.lower sc types).FailsOnly (BlamesOne sc types s.values) := by
  induction s using Stmt.induction with
  | varDecl sp d => exact .pure ()
  | block sp body ih =>
    have hbody := upheld_of_annotateAll (by simpa only [annotate] using h)
    exact lowerAll_failsOnly fun s hs => ih s hs (hbody s hs)
  | ifThen sp cond t ih =>
    simp only [annotate, Noted.notes_bind, upheld_append] at h
    refine .bind (.update _) fun _ => .bind ?_ fun _ => .bind (.emit _) fun _ =>
      .bind (.emit _) fun _ => .bind (.emit _) fun _ => .bind ?_ fun _ => .emit _
    · exact failsOnly_of_mem (List.mem_cons_self ..)
        (Expr.lower_failsOnly (settled_of_condition h.1))
    · exact failsOnly_of_subset (List.subset_cons_self ..) (ih h.2)
  | ifElse sp cond t e iht ihe =>
    simp only [annotate, Noted.notes_bind, upheld_append] at h
    have ht : (t.lower sc types).FailsOnly
        (BlamesOne sc types (Stmt.ifElse sp cond t e).values) :=
      failsOnly_of_subset (fun _ hd => by simp [values, hd]) (iht h.2.1)
    have he : (e.lower sc types).FailsOnly
        (BlamesOne sc types (Stmt.ifElse sp cond t e).values) :=
      failsOnly_of_subset (fun _ hd => by simp [values, hd]) (ihe h.2.2)
    -- From the label of the `then` branch on; the jump before it is not always written.
    have htail : ∀ n, (Stage.emit (.label (thenLabel n)) >>= fun _ => t.lower sc types >>= fun _ =>
        if (!(e.definitelyReturns && t.definitelyReturns)) = true then
          Stage.emit (.label (endifLabel n))
        else pure () : Lower Unit).FailsOnly
          (BlamesOne sc types (Stmt.ifElse sp cond t e).values) :=
      fun n => .bind (.emit _) fun _ => .bind ht fun _ => .ite (.emit _) (.pure ())
    rw [lower]
    refine .bind (.update _) fun _ => .bind ?_ fun _ => .bind (.emit _) fun _ =>
      .bind he fun _ => ?_
    · exact failsOnly_of_mem (List.mem_cons_self ..)
        (Expr.lower_failsOnly (settled_of_condition h.1))
    · exact .ite (.bind (.emit _) fun _ => htail _) (htail _)
  | whileLoop sp cond b ih =>
    simp only [annotate, Noted.notes_bind, upheld_append] at h
    refine .bind (.update _) fun _ => .bind (.emit _) fun _ => .bind ?_ fun _ =>
      .bind (.emit _) fun _ => .bind (.emit _) fun _ => .bind (.emit _) fun _ => .bind ?_ fun _ =>
      .bind (.emit _) fun _ => .emit _
    · exact failsOnly_of_mem (List.mem_cons_self ..)
        (Expr.lower_failsOnly (settled_of_condition h.1))
    · exact failsOnly_of_subset (List.subset_cons_self ..) (ih h.2)
  | expr sp e => exact lowerEffect_failsOnly (upheld_of_effect h)
  | assign sp x v =>
    obtain ⟨hx, hv⟩ := settled_of_assignment h
    refine .bind (resolveTarget_failsOnly hx) fun b => .bind ?_ fun _ => ?_
    · exact failsOnly_of_mem (List.mem_singleton_self v) (Expr.lower_failsOnly hv)
    · cases b <;> exact .emit _
  | arrayAssign sp x i v =>
    obtain ⟨⟨b, element, hb, harray⟩, hi, hv⟩ := settled_of_elementAssignment h
    refine .bind_run (resolveTarget_failsOnly ⟨b, hb⟩) ?_
    intro b' _ _ _ hrun
    obtain ⟨hb', -, -⟩ := resolveTarget_ok_iff.1 hrun
    obtain rfl : b = b' := Option.some.inj (hb.symm.trans hb')
    refine .bind (itemTy_failsOnly harray) fun ty => .bind_run arrayOperand_failsOnly ?_
    intro base _ _ _ hbase
    obtain ⟨y, t, p, rfl⟩ := arrayOperand_isVar hbase
    refine .bind ?_ fun _ => .bind ?_ fun _ => .bind (.pure _) fun _ => .emit _
    · exact failsOnly_of_mem (List.mem_cons_self ..) (Expr.lower_failsOnly hi)
    · exact failsOnly_of_mem (by simp [values]) (Expr.lower_failsOnly hv)
  | ret sp v =>
    cases v with
    | none => exact .emit _
    | some v =>
      refine .bind ?_ fun _ => .emit _
      exact failsOnly_of_mem (List.mem_singleton_self v)
        (Expr.lower_failsOnly (settled_of_returned h))

/-- Every item is found among the parts whose values are used. -/
theorem filter_values (s : Stmt) :
    (s.values.flatMap subtree).filter (indexesClassName sc) =
      (s.roots.flatMap subtree).filter (indexesClassName sc) := by
  induction s using Stmt.induction with
  | varDecl | assign | arrayAssign | ret => rfl
  | block sp body ih =>
    rw [values, roots, valuesAll_eq_flatMap, rootsAll_eq_flatMap]
    induction body with
    | nil => rfl
    | cons s ss ihs =>
      rw [List.forall_mem_cons] at ih
      simp only [List.flatMap_cons, List.flatMap_append, List.filter_append, ih.1, ihs ih.2]
  | ifThen sp cond t ih => simp [values, roots, ih]
  | ifElse sp cond t e iht ihe => simp [values, roots, iht, ihe]
  | whileLoop sp cond b ih => simp [values, roots, ih]
  | expr sp e => simp [values, roots, filter_usedParts]

end Stmt

/-! ## Programs -/

/-- In the body of the method a call without a value stands where a value is used, or there is an
item of a class name. -/
def MethodDecl.Faulty (sc : Scope) (types : TypeMap) (d : MethodDecl) : Prop :=
  (∃ e ∈ (Stmt.valuesAll d.body).flatMap Expr.subtree, e.isVoidCall types = true) ∨
    ∃ e ∈ (Stmt.rootsAll d.body).flatMap Expr.subtree, e.indexesClassName sc = true

/-- One of the methods is faulty. -/
def Program.Faulty (p : Program) (table : SymbolTable) (types : TypeMap) : Prop :=
  ∃ d ∈ p.classes, ∃ cls, table.class? d.name.node = some cls ∧
    ∃ md ∈ d.methods, ∃ method, cls.method? md.name.node = some method ∧
      md.Faulty (md.scope table cls method) types

theorem Expr.not_sound_iff {sc : Scope} {types : TypeMap} {e : Expr} :
    ¬e.Sound sc types ↔ ∃ d ∈ e.subtree, d.isVoidCall types = true ∨
      d.indexesClassName sc = true := by
  simp only [Sound, not_forall, not_and_or, Bool.not_eq_false, exists_prop]

theorem MethodDecl.faulty_iff {sc : Scope} {types : TypeMap} {d : MethodDecl} :
    d.Faulty sc types ↔ ∃ e ∈ Stmt.valuesAll d.body, ¬e.Sound sc types := by
  have hfilter := @Stmt.filter_values sc (.block .unknown d.body)
  rw [Stmt.values, Stmt.roots] at hfilter
  simp only [Faulty, ← List.mem_filter, ← hfilter]
  simp only [List.mem_filter, List.mem_flatMap, Expr.not_sound_iff]
  grind

namespace MethodDecl

variable {table : SymbolTable} {types : TypeMap} {cls : ClassSymbols} {method : MethodSymbols}
  {d : MethodDecl}

theorem not_faulty_of_lower {c c' : Counters} {m : Method} {events : List Event}
    (hmethod : cls.method? d.name.node = some method)
    (h : (d.lower table types cls).run c = ⟨.ok m, c', events⟩) :
    ¬d.Faulty (d.scope table cls method) types := by
  obtain ⟨method', body, hmethod', hbody, -⟩ := lower_ok h
  obtain rfl : method = method' := Option.some.inj (hmethod.symm.trans hmethod')
  have hblock : Stmt.Lowers (d.scope table cls method) types (.block .unknown d.body) c c' body :=
    Stmt.lowers_block.2 hbody
  rw [faulty_iff]
  rintro ⟨e, he, hunsound⟩
  exact hunsound (hblock.sound e he)

theorem lower_failsOnly (hmethod : cls.method? d.name.node = some method)
    (hbody : Upheld types (Stmt.annotateAll (d.scope table cls method) d.body).notes) :
    (d.lower table types cls).FailsOnly fun fault =>
      d.Faulty (d.scope table cls method) types ∧ fault.isMissingName = false := by
  rw [lower, hmethod]
  refine .bind (.collect ?_) fun _ => .bind (.emit _) fun _ => .pure _
  refine (Stmt.lowerAll_failsOnly fun s hs =>
    Stmt.lower_failsOnly (Stmt.upheld_of_annotateAll hbody s hs)).mono ?_
  rintro fault ⟨e, he, hunsound, hname⟩
  exact ⟨faulty_iff.2 ⟨e, he, hunsound⟩, hname⟩

end MethodDecl

namespace Program

variable {p : Program} {table : SymbolTable} {types : TypeMap} {a : Annotation}

/-- A program that has been lowered is not faulty. -/
theorem not_faulty_of_lower {c c' : Counters} {units : List ClassUnit} {events : List Event}
    (h : (p.lower table types).run c = ⟨.ok units, c', events⟩) : ¬p.Faulty table types := by
  rintro ⟨d, hd, cls, hcls, md, hmd, method, hmethod, hfaulty⟩
  obtain ⟨u, -, cls', ms, hcls', -, -, hmethods, -⟩ := (lower_ok h).1 d hd
  obtain rfl : cls = cls' := Option.some.inj (hcls.symm.trans hcls')
  obtain ⟨m, -, c₁, c₂, o, hlow⟩ := hmethods md hmd
  exact MethodDecl.not_faulty_of_lower hmethod hlow hfaulty

/-- Lowering an accepted program fails only if it is faulty. -/
theorem lower_failsOnly (h : p.check table = .ok a) :
    (p.lower table a.types).FailsOnly fun fault =>
      p.Faulty table a.types ∧ fault.isMissingName = false := by
  rw [lower, ClassDecl.lowerAll_eq_mapM']
  refine .mapM' fun d hd => ?_
  obtain ⟨cls, hcls, hmethods⟩ := check_methods h hd
  rw [ClassDecl.lower, hcls]
  refine .bind ?_ fun _ => .bind (.update _) fun _ => .bind (.emit _) fun _ => .pure _
  rw [MethodDecl.lowerAll_eq_mapM']
  refine .mapM' fun md hmd => ?_
  obtain ⟨method, hmethod⟩ := hmethods md hmd
  have hbody := upheld_body h hd hcls hmd hmethod.symbols
  refine (MethodDecl.lower_failsOnly hmethod.symbols hbody).mono ?_
  rintro fault ⟨hfaulty, hname⟩
  exact ⟨⟨d, hd, cls, hcls, md, hmd, method, hmethod.symbols, hfaulty⟩, hname⟩

/-- Lowering an accepted program ends well, or the program is faulty. -/
theorem lower_cases (h : p.check table = .ok a) (c : Counters) :
    (∃ units, ((p.lower table a.types).run c).result = .ok units ∧ ¬p.Faulty table a.types) ∨
      ∃ fault, ((p.lower table a.types).run c).result = .error fault ∧ p.Faulty table a.types ∧
        fault.isMissingName = false := by
  rcases hrun : (p.lower table a.types).run c with ⟨fault | units, c', events⟩
  · exact .inr ⟨fault, rfl, lower_failsOnly h c fault (by rw [hrun])⟩
  · exact .inl ⟨units, rfl, not_faulty_of_lower hrun⟩

/-- **Lowering an accepted program.** It stops with a fault exactly if in some method body a call
that is annotated as giving no value stands where a value is used, or an item is taken of the name
of a class; and then the fault is not about a missing class, method or variable. -/
theorem lower_error_iff (h : p.check table = .ok a) (c : Counters) :
    ((∃ fault, ((p.lower table a.types).run c).result = .error fault) ↔ p.Faulty table a.types) ∧
      ∀ fault, ((p.lower table a.types).run c).result = .error fault →
        fault.isMissingName = false := by
  rcases lower_cases h c with ⟨units, hok, hfine⟩ | ⟨fault, herror, hfaulty, hname⟩
  · rw [hok]
    exact ⟨⟨nofun, fun hfaulty => absurd hfaulty hfine⟩, nofun⟩
  · rw [herror]
    refine ⟨⟨fun _ => hfaulty, fun _ => ⟨fault, rfl⟩⟩, ?_⟩
    rintro _ ⟨⟩
    exact hname

end Program

/-! A method whose only statement takes an item of an imported class: `io[0];`. -/

namespace Shelf

def look : MethodDecl where
  name := { node := "look" }
  returnTy := { node := .void }
  body := [.expr .unknown (.index { id := 0 } (.var { id := 1 } "io") (.int { id := 2 } 0))]

def lookSymbols : MethodSymbols where
  name := "look"
  returnTy := .void

def symbols : ClassSymbols where
  name := "Shelf"
  methods := [lookSymbols]

def table : SymbolTable where
  imports := ["io"]
  classes := [symbols]

def decl : ClassDecl where
  name := { node := "Shelf" }
  methods := [look]

def program : Program where
  imports := [{ node := "io" }]
  classes := [decl]

theorem look_fails : ∃ a, program.check table = .ok a ∧ program.Faulty table a.types ∧
    ∃ fault, ((program.lower table a.types).run {}).result = .error fault ∧
      fault.isMissingName = false := by
  have hcheck : program.check table = .ok (program.annotate table) := rfl
  have hfaulty : program.Faulty table (program.annotate table).types :=
    ⟨decl, .head _, symbols, rfl, look, .head _, lookSymbols, rfl, .inr ⟨_, .head _, rfl⟩⟩
  obtain ⟨hiff, hname⟩ := Program.lower_error_iff hcheck {}
  obtain ⟨fault, herror⟩ := hiff.2 hfaulty
  exact ⟨_, hcheck, hfaulty, fault, herror, hname fault herror⟩

end Shelf

end MiniJava
