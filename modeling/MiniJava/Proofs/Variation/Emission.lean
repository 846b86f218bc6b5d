import MiniJava.Proofs.Annotation.Rules
import MiniJava.Proofs.Emission.Naming
import MiniJava.Proofs.Variation.Plain

/-!
# Emission of renamed code

A class whose methods have renamed variables has new names for variables and none for labels, so its
text stays the same (`Ir.ClassUnit.Alike.build`). So a variant of an accepted program is compiled to
the same assembly, or stops at the same kind of fault (`Program.VariantIn.compiled`).
-/

namespace MiniJava

open Ir Assembly

/-! ## Classes -/

/-- The new names that a renaming gives. -/
def Renaming.naming (ρ : Renaming) : Naming := ⟨ρ.name, ρ.injective, ρ.this⟩

namespace Ir

variable {ρ : Renaming}

theorem Operand.rename_eq_withNames (o : Operand) : o.rename ρ = o.withNames ρ.naming := by
  induction o with
  | item x i ty p ih =>
    rw [rename, withNames, ih]
    rfl
  | literal | var | cls => rfl

theorem Instr.rename_eq_withNames (i : Instr) : i.rename ρ = i.withNames ρ.naming fun l => l := by
  have hoperand : Operand.rename ρ = Operand.withNames ρ.naming :=
    funext Operand.rename_eq_withNames
  induction i with
  | assign dest ty rhs ih => rw [rename, withNames, hoperand, ih]
  | _ => simp only [rename, withNames, hoperand]

theorem Method.rename_eq_withNames (m : Method) : m.rename ρ = m.withNames ρ.naming fun l => l := by
  have hinstr : Instr.rename ρ = Instr.withNames ρ.naming fun l => l :=
    funext Instr.rename_eq_withNames
  rw [rename, withNames, hinstr]
  rfl

end Ir

section

variable {V : Variation → Prop} {u u' : ClassUnit}

theorem Ir.ClassUnit.Alike.named (h : u.Alike V u') : u.Named (fun l => l) u' where
  imports := h.imports
  name := h.name
  superName := h.superName
  fields := h.fields
  methods := h.methods.imp fun m _ ⟨v, _, hm⟩ => ⟨v.rename.naming, hm.trans m.rename_eq_withNames⟩

/-- **Emission of renamed code.** Classes whose methods have renamed variables have the same
text. -/
theorem Ir.ClassUnit.Alike.build (h : u.Alike V u') (hfresh : ∀ m ∈ u.methods, m.frozen = none)
    (limits : Limits) :
    SameValue (Emitter.build { unit := u, limits }).result
      (Emitter.build { unit := u', limits }).result := by
  refine (h.named.build ⟨fun _ => rfl, fun _ => rfl⟩ hfresh limits).mono (fun _ _ he => he) ?_
  rintro text text' ⟨rfl, rfl⟩
  rfl

end

/-! ## Programs -/

variable {V : Variation → Prop} {u u' : ClassUnit}

/-- The name and the text of a class. -/
def CompiledClass.listing (c : CompiledClass) : String × String := (c.name, c.assembly)

theorem Ir.ClassUnit.Alike.listing {options : Options} {c c' : CompiledClass} (h : u.Alike V u')
    (hfresh : ∀ m ∈ u.methods, m.frozen = none) (hc : u.CompilesTo options c)
    (hc' : u'.CompilesTo options c') : c'.listing = c.listing := by
  have hbuild := h.build hfresh options.limits
  rw [hc.assembly, hc'.assembly] at hbuild
  cases hbuild with
  | ok hassembly =>
    rw [CompiledClass.listing, CompiledClass.listing, hc'.name, hc.name, h.name, hassembly]

theorem Ir.ClassUnit.Alike.listings {options : Options} {units units' : List ClassUnit}
    {classes classes' : List CompiledClass} (h : List.Forall₂ (ClassUnit.Alike V) units units')
    (hfresh : ∀ u ∈ units, ∀ m ∈ u.methods, m.frozen = none)
    (hc : List.Forall₂ (ClassUnit.CompilesTo options) units classes)
    (hc' : List.Forall₂ (ClassUnit.CompilesTo options) units' classes') :
    classes'.map CompiledClass.listing = classes.map CompiledClass.listing := by
  induction h generalizing classes classes' with
  | nil =>
    cases hc
    cases hc'
    rfl
  | cons hu _ ih => cases hc with
    | cons hc hrest => cases hc' with
      | cons hc' hrest' =>
        rw [List.forall_mem_cons] at hfresh
        rw [List.map_cons, List.map_cons, hu.listing hfresh.1 hc hc', ih hfresh.2 hrest hrest']

theorem LowerError.Alike.ctorIdx_eq {v : Variation} {e e' : LowerError} (h : e.Alike v e') :
    e'.ctorIdx = e.ctorIdx := by
  cases h <;> rfl

theorem quiet_iff_severities {notes : List Note} :
    Quiet notes ↔ Severity.error ∉ (problems notes).map Problem.severity := by
  rw [List.mem_map, not_exists]
  constructor
  · rintro h q ⟨hq, herror⟩
    obtain ⟨n, hn, hnq⟩ := List.mem_filterMap.1 hq
    cases n with
    | report r s =>
      cases hnq
      exact h q s hn herror
    | typed | adopted => cases hnq
  · intro h q s hm herror
    exact h q ⟨List.mem_filterMap.2 ⟨_, hm, rfl⟩, herror⟩

namespace Program.VariantIn

variable {table table' : SymbolTable} {p p' : Program} {v₀ : Variation}

/-- A variant of an accepted program is accepted. There may be other warnings about imports. -/
theorem quiet (h : p.VariantIn V table table' p') (hv₀ : V v₀) (hquiet : Quiet (p.notes table)) :
    Quiet (p'.notes table') := by
  have hseverities : (MiniJava.problems (p'.classes.flatMap (ClassDecl.annotate table'))).map
      Problem.severity = (MiniJava.problems (p.classes.flatMap (ClassDecl.annotate table))).map
        Problem.severity := by
    refine map_eq_of_forall₂ ((h.problems hv₀).imp fun q q' hq => ?_)
    obtain ⟨v, -, rfl⟩ := hq
    exact q.severity_rename v.rename
  rw [notes, quiet_append, quiet_iff_severities] at hquiet ⊢
  exact ⟨hseverities ▸ hquiet.1, p'.quiet_unusedImports⟩

/-- **Compiling variants.** An accepted program and its variant have the same assembly, or neither
can be lowered, for the same cause. -/
theorem compiled (h : p.VariantIn V table table' p') (hv₀ : V v₀) (hids' : p'.uniqueIds = true)
    {a : Annotation} (hchecked : p.checked table = .ok a) (options : Options) :
    (∃ a', p'.checked table' = .ok a') ∧
      ResultsAlike
        (fun e e' => ∃ fault fault', e = .lower fault ∧ e' = .lower fault' ∧
          fault'.ctorIdx = fault.ctorIdx)
        (fun o o' => o'.classes.map CompiledClass.listing = o.classes.map CompiledClass.listing)
        (p.compiled table options) (p'.compiled table' options) := by
  obtain ⟨hids, hcheck⟩ := checked_ok_iff.1 hchecked
  obtain ⟨hquiet, rfl⟩ := check_ok_iff.1 hcheck
  have hchecked' : p'.checked table' = .ok (p'.annotate table') :=
    checked_ok_iff.2 ⟨hids', check_ok_iff.2 ⟨h.quiet hv₀ hquiet, rfl⟩⟩
  refine ⟨⟨_, hchecked'⟩, ?_⟩
  -- Variants are accepted together; then they are lowered alike, and the emitter sees no names of
  -- variables.
  have hlower := (h.lower hv₀ hids hids' {}).result
  generalize hold : ((p.lower table (p.annotate table).types).run {}).result = r,
    hnew : ((p'.lower table' (p'.annotate table').types).run {}).result = r' at hlower
  cases hlower with
  | error he =>
    obtain ⟨v, -, halike⟩ := he
    rw [compiled_of_fault hchecked hold, compiled_of_fault hchecked' hnew]
    exact .error ⟨_, _, rfl, rfl, halike.ctorIdx_eq⟩
  | ok hunits =>
    obtain ⟨classes, hcompiled, hclasses⟩ := compiled_of_lower options hchecked hold
    obtain ⟨classes', hcompiled', hclasses'⟩ := compiled_of_lower options hchecked' hnew
    rw [hcompiled, hcompiled']
    exact .ok (ClassUnit.Alike.listings hunits (frozen_of_lower hold) hclasses hclasses')

end Program.VariantIn

end MiniJava
