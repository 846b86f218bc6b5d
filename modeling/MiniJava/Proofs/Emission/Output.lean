import MiniJava.Proofs.Emission.Listing
import MiniJava.Proofs.SideBySide

/-!
# What a program is compiled to

Compilation ends in one of three ways: with the diagnostics of the check, with a fault of lowering,
or with a text for every class (`Program.compiled_of_hasErrors`, `Program.compiled_of_fault`,
`Program.compiled_of_lower`). Emission adds no fault of its own.
-/

namespace MiniJava

open Assembly Ir

/-- The result of passes in a row; they have no state to hand on. -/
theorem Stage.result_bind {ω ε α β : Type} (x : Stage Unit ω ε α) (f : α → Stage Unit ω ε β) :
    ((x >>= f).run ()).result = (x.run ()).result >>= fun a => ((f a).run ()).result := by
  rw [run_bind, andThen]
  cases (x.run ()).result <;> rfl

/-- The class is what the unit is compiled to. -/
structure Ir.ClassUnit.CompilesTo (options : Options) (u : ClassUnit)
    (c : CompiledClass) : Prop where
  name : c.name = u.name
  ir : c.ir = if options.keepIr then some u.text else none
  assembly : (Emitter.build { unit := u, limits := options.limits }).result = .ok c.assembly

theorem Ir.ClassUnit.CompilesTo.unique {options : Options} {u : ClassUnit} {c c' : CompiledClass}
    (h : u.CompilesTo options c) (h' : u.CompilesTo options c') : c' = c := by
  have hassembly : c'.assembly = c.assembly := Except.ok.inj (h'.assembly.symm.trans h.assembly)
  cases c
  cases c'
  rw [CompiledClass.mk.injEq]
  exact ⟨h'.name.trans h.name.symm, h'.ir.trans h.ir.symm, hassembly⟩

theorem Ir.ClassUnit.CompilesTo.all_unique {options : Options} {units : List ClassUnit}
    {classes classes' : List CompiledClass}
    (h : List.Forall₂ (ClassUnit.CompilesTo options) units classes)
    (h' : List.Forall₂ (ClassUnit.CompilesTo options) units classes') : classes' = classes :=
  List.right_unique_forall₂' (fun _ _ _ hc hc' => hc'.unique hc) h' h

/-- Units whose texts can be made are all compiled, in order. -/
theorem emitAllPass_of_build {options : Options} {units : List ClassUnit}
    (h : ∀ u ∈ units, ∃ text,
      (Emitter.build { unit := u, limits := options.limits }).result = .ok text) :
    ∃ classes, ((emitAllPass options units).run ()).result = .ok classes ∧
      List.Forall₂ (ClassUnit.CompilesTo options) units classes := by
  induction units with
  | nil => exact ⟨[], rfl, .nil⟩
  | cons u units ih =>
    rw [List.forall_mem_cons] at h
    obtain ⟨text, htext⟩ := h.1
    obtain ⟨classes, hclasses, hall⟩ := ih h.2
    have hunit : ((emitPass options u).run ()).result =
        .ok ⟨u.name, if options.keepIr then some u.text else none, text⟩ := by
      rw [emitPass, Stage.result_bind, Stage.emitAll_run]
      dsimp only
      rw [htext]
      rfl
    refine ⟨⟨u.name, if options.keepIr then some u.text else none, text⟩ :: classes, ?_,
      .cons ⟨rfl, rfl, htext⟩ hall⟩
    rw [emitAllPass, Stage.result_bind, hunit]
    show ((emitAllPass options units >>= _).run ()).result = _
    rw [Stage.result_bind, hclasses]
    rfl

namespace Program

variable {p : Program} {table : SymbolTable} {a : Annotation} {options : Options}

theorem compiled_eq_bind : p.compiled table options = p.checked table >>= fun a =>
    ((p.lower table a.types).run {}).result.mapError .lower >>= fun units =>
      ((emitAllPass options units).run ()).result >>= fun classes =>
        .ok { classes, warnings := a.warnings } := by
  rw [compiled, compilePass, Stage.result_bind]
  congr 1
  funext a
  rw [Stage.result_bind]
  congr 1
  funext units
  rw [Stage.result_bind]
  congr 1

/-- A program with errors is not compiled. -/
theorem compiled_of_hasErrors (hids : p.uniqueIds = true)
    (h : (p.annotate table).hasErrors = true) :
    p.compiled table options = .error (.semantic (p.annotate table).diagnostics) := by
  rw [compiled_eq_bind, checked_eq hids, check, Annotation.accepted, if_pos h]
  rfl

theorem checked_of_not_hasErrors (hids : p.uniqueIds = true)
    (h : (p.annotate table).hasErrors = false) : p.checked table = .ok (p.annotate table) := by
  rw [checked_eq hids, check, Annotation.accepted, h]
  rfl

/-- A fault of lowering is one of compilation. -/
theorem compiled_of_fault (h : p.checked table = .ok a) {fault : LowerError}
    (hlow : ((p.lower table a.types).run {}).result = .error fault) :
    p.compiled table options = .error (.lower fault) := by
  simp only [compiled_eq_bind, h, hlow, bind, Except.bind, Except.mapError]

/-- A program that passes the check and is lowered is compiled. -/
theorem compiled_of_lower (options : Options) (h : p.checked table = .ok a) {units : List ClassUnit}
    (hlow : ((p.lower table a.types).run {}).result = .ok units) :
    ∃ classes, p.compiled table options = .ok { classes, warnings := a.warnings } ∧
      List.Forall₂ (ClassUnit.CompilesTo options) units classes := by
  have hbuild : ∀ u ∈ units, ∃ text,
      (Emitter.build { unit := u, limits := options.limits }).result = .ok text := by
    intro u hu
    obtain ⟨codes, n, -, htext⟩ := Emitter.build_of_lower h hlow
      (e := { unit := u, limits := options.limits }) hu rfl
    exact ⟨_, htext⟩
  obtain ⟨classes, hclasses, hall⟩ := emitAllPass_of_build hbuild
  refine ⟨classes, ?_, hall⟩
  simp only [compiled_eq_bind, h, hlow, hclasses, bind, Except.bind, Except.mapError]

/-- A program that is compiled has passed the check and was lowered. -/
theorem compiled_ok {out : Output} (h : p.compiled table options = .ok out) :
    ∃ a units, p.checked table = .ok a ∧ ((p.lower table a.types).run {}).result = .ok units ∧
      List.Forall₂ (ClassUnit.CompilesTo options) units out.classes := by
  cases hchecked : p.checked table with
  | error e =>
    simp only [compiled_eq_bind, hchecked, bind, Except.bind] at h
    cases h
  | ok a =>
    cases hlow : ((p.lower table a.types).run {}).result with
    | error fault =>
      rw [compiled_of_fault hchecked hlow] at h
      cases h
    | ok units =>
      obtain ⟨classes, hcompiled, hclasses⟩ := compiled_of_lower options hchecked hlow
      rw [hcompiled] at h
      cases h
      exact ⟨a, units, rfl, hlow, hclasses⟩

end Program

end MiniJava
