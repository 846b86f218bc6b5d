import MiniJava.Annotation.Program

/-!
# Programs without errors

A program is accepted exactly if none of the notes on it is an error (`Program.check_ok_iff`). The
notes of a tree are the notes of its parts put together, so a body without errors is one whose parts
are without errors; `Program.check_methods` hands the fact down to the methods.
-/

namespace MiniJava

/-- There are no errors among the notes. -/
def Quiet (notes : List Note) : Prop :=
  ∀ p span, Note.report p span ∈ notes → p.severity ≠ .error

@[simp] theorem quiet_nil : Quiet [] := nofun

@[simp] theorem quiet_append {a b : List Note} : Quiet (a ++ b) ↔ Quiet a ∧ Quiet b := by
  constructor
  · intro h
    exact ⟨fun p s hm => h p s (List.mem_append_left _ hm),
      fun p s hm => h p s (List.mem_append_right _ hm)⟩
  · rintro ⟨ha, hb⟩ p s hm
    rcases List.mem_append.1 hm with hm | hm
    · exact ha p s hm
    · exact hb p s hm

theorem quiet_flatMap {α : Type} {f : α → List Note} {l : List α} :
    Quiet (l.flatMap f) ↔ ∀ a ∈ l, Quiet (f a) := by
  induction l with
  | nil => simp
  | cons a l ih => rw [List.flatMap_cons, quiet_append, ih, List.forall_mem_cons]

theorem quiet_report {p : Problem} {span : Span} :
    Quiet [.report p span] ↔ p.severity ≠ .error := by
  simp [Quiet]

@[simp] theorem Noted.quiet_report {p : Problem} {span : Span} :
    Quiet (Noted.report p span).notes ↔ p.severity ≠ .error :=
  MiniJava.quiet_report

@[simp] theorem Noted.quiet_reportIf {b : Bool} {p : Problem} {span : Span} :
    Quiet (Noted.reportIf b p span).notes ↔ (b = true → p.severity ≠ .error) := by
  cases b <;> simp [Noted.reportIf]

/-! ## Programs -/

namespace Annotation

theorem hasErrors_eq_false_iff {notes : List Note} :
    (ofNotes notes).hasErrors = false ↔ Quiet notes := by
  rw [hasErrors, List.any_eq_false]
  constructor
  · intro h p s hm hp
    have hd : p.diagnostic s ∈ (ofNotes notes).diagnostics := List.mem_filterMap.2 ⟨_, hm, rfl⟩
    exact h _ hd (by simp [Diagnostic.isError, Problem.diagnostic, hp])
  · intro h d hd
    obtain ⟨n, hn, hnd⟩ := List.mem_filterMap.1 hd
    cases n with
    | typed id ty => cases hnd
    | adopted id ty => cases hnd
    | report p s =>
      injection hnd with hnd
      subst hnd
      simpa [Diagnostic.isError, Problem.diagnostic] using h p s hn

end Annotation

/-- A program is accepted exactly if there are no errors among the notes on it. -/
theorem Program.check_ok_iff {p : Program} {table : SymbolTable} {a : Annotation} :
    p.check table = .ok a ↔ Quiet (p.notes table) ∧ a = p.annotate table := by
  rw [check, annotate, ← Annotation.hasErrors_eq_false_iff, Annotation.accepted]
  split
  · next h => simp [h]
  · next h => simp [h, eq_comm]

/-- The scope of the body of a method. -/
def MethodDecl.scope (table : SymbolTable) (cls : ClassSymbols) (method : MethodSymbols)
    (d : MethodDecl) : Scope :=
  { table, cls, method, isStatic := d.isStatic }

/-- There are no errors in the method: it has symbols, its body is quiet, and it ends in a return if
it gives a value. -/
structure MethodDecl.Accepted (table : SymbolTable) (cls : ClassSymbols) (method : MethodSymbols)
    (d : MethodDecl) : Prop where
  symbols : cls.method? d.name.node = some method
  body : Quiet (Stmt.annotateAll (d.scope table cls method) d.body).notes
  returns : d.returnTy.node ≠ .void → Stmt.lastReturns d.body = true

theorem MethodDecl.accepted_of_quiet {table : SymbolTable} {cls : ClassSymbols} {d : MethodDecl}
    (h : Quiet (d.annotate table cls)) : ∃ method, d.Accepted table cls method := by
  unfold annotate at h
  split at h
  · exact absurd rfl (MiniJava.quiet_report.1 h)
  · next method hm =>
    obtain ⟨hbody, hret⟩ := quiet_append.1 h
    refine ⟨method, hm, hbody, fun hty => ?_⟩
    cases hlast : Stmt.lastReturns d.body with
    | true => rfl
    | false => simp [hty, hlast, MiniJava.quiet_report, Problem.severity] at hret

/-- Every class of an accepted program has symbols, and so has every method, without errors. -/
theorem Program.check_methods {p : Program} {table : SymbolTable} {a : Annotation}
    (h : p.check table = .ok a) {d : ClassDecl} (hd : d ∈ p.classes) :
    ∃ cls, table.class? d.name.node = some cls ∧
      ∀ md ∈ d.methods, ∃ method, md.Accepted table cls method := by
  obtain ⟨hquiet, -⟩ := check_ok_iff.1 h
  have hclass := quiet_flatMap.1 (quiet_append.1 hquiet).1 d hd
  unfold ClassDecl.annotate at hclass
  split at hclass
  · exact absurd rfl (MiniJava.quiet_report.1 hclass)
  · next cls hcls =>
    exact ⟨cls, hcls, fun md hmd => MethodDecl.accepted_of_quiet (quiet_flatMap.1 hclass md hmd)⟩

end MiniJava
