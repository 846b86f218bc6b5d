import MiniJava.Proofs.Annotation.Locality

/-!
# Errors and warnings

Whatever the annotator finds wrong in a class is an error, so the warnings on a program are those
about its imports, and each of them names an import that is not mentioned
(`Program.not_mem_names_of_warning`).
-/

namespace MiniJava

/-- All problems among the notes are errors. -/
def Faults (notes : List Note) : Prop := ∀ q span, Note.report q span ∈ notes → q.severity = .error

@[simp] theorem faults_nil : Faults [] := by simp [Faults]

@[simp] theorem faults_append {a b : List Note} : Faults (a ++ b) ↔ Faults a ∧ Faults b := by
  constructor
  · intro h
    exact ⟨fun q span hmem => h q span (List.mem_append_left _ hmem),
      fun q span hmem => h q span (List.mem_append_right _ hmem)⟩
  · rintro ⟨ha, hb⟩ q span hmem
    rcases List.mem_append.1 hmem with hmem | hmem
    · exact ha q span hmem
    · exact hb q span hmem

theorem faults_flatMap {α : Type} {f : α → List Note} {l : List α} (h : ∀ a ∈ l, Faults (f a)) :
    Faults (l.flatMap f) := by
  intro q span hmem
  obtain ⟨a, ha, hmem⟩ := List.mem_flatMap.1 hmem
  exact h a ha q span hmem

theorem faults_report {q : Problem} {span : Span} :
    Faults [.report q span] ↔ q.severity = .error := by
  simp [Faults]

namespace Noted

variable {i : Nat} {ty : Ty} {q : Problem} {span : Span}

@[simp] theorem faults_typed : Faults (note (.typed i ty)).notes := by simp [note, Faults]

@[simp] theorem faults_adopted : Faults (note (.adopted i ty)).notes := by simp [note, Faults]

@[simp] theorem faults_report : Faults (report q span).notes ↔ q.severity = .error :=
  MiniJava.faults_report

@[simp] theorem faults_reportIf {b : Bool} :
    Faults (reportIf b q span).notes ↔ (b = true → q.severity = .error) := by
  cases b <;> simp [reportIf]

theorem faults_all {xs : List (Noted Unit)} (h : ∀ x ∈ xs, Faults x.notes) :
    Faults (all xs).notes := by
  induction xs with
  | nil => simp [all]
  | cons x xs ih =>
    rw [List.forall_mem_cons] at h
    simp [all, h.1, ih h.2]

end Noted

/-! ## Expressions -/

namespace Expr

variable {sc : Scope}

@[simp] theorem faults_adopt (e : Expr) (ty : Ty) : Faults (e.adopt ty).notes := by
  induction e using Expr.induction with
  | paren n e ih => simp [adopt, ih]
  | _ => exact Noted.faults_adopted

@[simp] theorem faults_expect {e : Expr} {ty : Ty} {found : Noted (Option Ty)}
    (h : Faults found.notes) : Faults (e.expect ty found).notes := by
  rw [expect, Noted.notes_bind, faults_append]
  refine ⟨h, ?_⟩
  split <;> simp

@[simp] theorem faults_needType (e : Expr) (position : String) :
    Faults (e.needType position).notes := by
  unfold needType
  split <;> simp [Problem.severity]

@[simp] theorem faults_settle (n : Node) (found : Option Ty) : Faults (settle n found).notes := by
  cases found <;> simp [settle]

@[simp] theorem faults_varTy (x : String) (span : Span) : Faults (varTy sc x span).notes := by
  unfold varTy
  split <;> simp [Problem.severity]

@[simp] theorem faults_notTy (span : Span) (found : Option Ty) :
    Faults (notTy span found).notes := by
  unfold notTy
  split <;> simp [Problem.severity]

@[simp] theorem faults_binaryTy (span : Span) (op : BinOp) (left right : Option Ty) :
    Faults (binaryTy span op left right).notes := by
  simp only [binaryTy]
  split <;> simp [Problem.severity]

theorem faults_wantInt {problem : Ty → Problem} (hproblem : ∀ ty, (problem ty).severity = .error)
    (span : Span) (found : Option Ty) : Faults (wantInt problem span found).notes := by
  cases found <;> simp [wantInt, hproblem]

@[simp] theorem faults_lengthTy (array : Expr) (found : Option Ty) :
    Faults (lengthTy array found).notes := by
  cases found <;> simp [lengthTy, Problem.severity]

@[simp] theorem faults_indexTy (array : Expr) (found : Option Ty) :
    Faults (indexTy array found).notes := by
  unfold indexTy
  split <;> simp [Problem.severity]

theorem faults_knownArgs {method : String} {args : Args}
    (hargs : ∀ a ∈ args, Faults a.2.notes) (k : Nat) (ps : List Symbol) :
    Faults (knownArgs sc method k args ps).notes := by
  induction args generalizing k ps with
  | nil => simp [knownArgs]
  | cons a args ih =>
    rw [List.forall_mem_cons] at hargs
    cases ps with
    | nil => simp [knownArgs]
    | cons q ps =>
      rw [knownArgs, Noted.notes_bind, faults_append]
      refine ⟨faults_expect hargs.1, ?_⟩
      split <;> simp [Problem.severity, ih hargs.2]

theorem faults_callTy {args : Args} (hargs : ∀ a ∈ args, Faults a.2.notes) (span : Span) (r : Expr)
    (method : String) (found : Option Ty) : Faults (callTy sc span r method args found).notes := by
  have hfree : Faults (freeArgs args).notes :=
    Noted.faults_all (List.forall_mem_map.2 fun a ha => by simpa using hargs a ha)
  have hunknown : Faults (unknownArgs args).notes :=
    Noted.faults_all (List.forall_mem_map.2 fun a ha => by simpa using faults_expect (hargs a ha))
  unfold callTy
  split
  · split
    · split
      · split
        · simpa using faults_knownArgs hargs 1 _
        · simpa [Problem.severity] using hfree
      · simpa [Problem.severity] using hunknown
    · simpa using hunknown
  · simpa [Problem.severity] using hfree
  · simpa using hunknown

/-- All that is wrong in an expression is an error. -/
theorem faults_annotate (e : Expr) : Faults (e.annotate sc).notes := by
  induction e using Expr.induction with
  | int | bool | var => simp [annotate]
  | this | newObject => simp [annotate, Problem.severity]
  | not n e ih => simp [annotate, faults_expect ih]
  | binary n op l r ihl ihr => simp [annotate, faults_expect ihl, faults_expect ihr]
  | call n r m args ihr ihargs =>
    have hargs : ∀ a ∈ annotateEach sc args, Faults a.2.notes := by
      rw [annotateEach_eq_map]
      exact List.forall_mem_map.2 ihargs
    simp [annotate, ihr, faults_callTy hargs]
  | newArray n e ih =>
    have hsize : ∀ found, Faults (wantInt .arraySize e.span found).notes :=
      faults_wantInt (fun _ => rfl) e.span
    simp [annotate, faults_expect ih, hsize]
  | length n a ih => simp [annotate, ih]
  | index n a i iha ihi =>
    have hplace : ∀ found, Faults (wantInt .arrayIndex i.span found).notes :=
      faults_wantInt (fun _ => rfl) i.span
    simp [annotate, iha, faults_expect ihi, hplace]
  | paren n e ih => simp [annotate, ih]

end Expr

/-! ## Statements -/

namespace Stmt

variable {sc : Scope}

@[simp] theorem faults_target (x : Located String) : Faults (target sc x).notes := by
  unfold target
  split <;> simp [Problem.severity]

@[simp] theorem faults_elementTy (x : Located String) (found : Option Ty) :
    Faults (elementTy x found).notes := by
  unfold elementTy
  split <;> simp [Problem.severity]

theorem faults_condition (keyword : String) (c : Expr) : Faults (condition sc keyword c).notes := by
  rw [condition, Noted.notes_bind, faults_append]
  refine ⟨c.faults_annotate, ?_⟩
  split <;> simp [Problem.severity]

theorem faults_fit (v : Expr) (expected : Ty) (fits : Ty → Bool) {problem : Ty → Problem}
    (hproblem : ∀ ty, (problem ty).severity = .error) (span : Span) :
    Faults (fit sc v expected fits problem span).notes := by
  rw [fit, Noted.notes_bind, faults_append]
  refine ⟨Expr.faults_expect v.faults_annotate, ?_⟩
  split <;> simp [hproblem]

theorem faults_annotateAll_of {ss : List Stmt} (h : ∀ t ∈ ss, Faults (t.annotate sc).notes) :
    Faults (annotateAll sc ss).notes := by
  induction ss with
  | nil => simp [annotateAll]
  | cons t ss ih =>
    rw [List.forall_mem_cons] at h
    simp [annotateAll, h.1, ih h.2]

/-- All that is wrong in a statement is an error. -/
theorem faults_annotate (t : Stmt) : Faults (t.annotate sc).notes := by
  induction t using Stmt.induction with
  | varDecl sp d => simp [annotate]
  | block sp body ih => exact faults_annotateAll_of ih
  | ifThen sp c t ih | whileLoop sp c t ih => simp [annotate, faults_condition, ih]
  | ifElse sp c t e iht ihe => simp [annotate, faults_condition, iht, ihe]
  | expr sp e =>
    rw [annotate, effect, Noted.notes_bind, faults_append]
    refine ⟨e.faults_annotate, ?_⟩
    split <;> simp
  | assign sp x v =>
    rw [annotate, assignment, Noted.notes_bind, faults_append]
    refine ⟨faults_target x, ?_⟩
    split
    · exact faults_fit _ _ _ (fun _ => rfl) _
    · simpa using v.faults_annotate
  | arrayAssign sp x i v =>
    simp only [annotate, elementAssignment, Noted.notes_bind, faults_append]
    refine ⟨faults_target x, Expr.faults_expect i.faults_annotate,
      Expr.faults_wantInt (fun _ => rfl) _ _, faults_elementTy x _, ?_⟩
    split
    · exact faults_fit _ _ _ (fun _ => rfl) _
    · simpa using v.faults_annotate
  | ret sp v => cases v with
    | none => simp [annotate, returned, Problem.severity]
    | some v =>
      rw [annotate, returned]
      split
      · simp [v.faults_annotate, Problem.severity]
      · exact faults_fit _ _ _ (fun _ => rfl) _

end Stmt

/-! ## Programs -/

theorem MethodDecl.faults_annotate (table : SymbolTable) (cls : ClassSymbols) (d : MethodDecl) :
    Faults (d.annotate table cls) := by
  unfold annotate
  split
  · exact faults_report.2 rfl
  · rw [faults_append]
    refine ⟨Stmt.faults_annotateAll_of fun t _ => t.faults_annotate, ?_⟩
    split
    · exact faults_report.2 rfl
    · exact faults_nil

/-- All that is wrong in a class is an error. -/
theorem ClassDecl.faults_annotate (table : SymbolTable) (d : ClassDecl) :
    Faults (d.annotate table) := by
  unfold annotate
  split
  · exact faults_report.2 rfl
  · exact faults_flatMap fun md _ => md.faults_annotate table _

theorem Problem.eq_of_message_unusedImport {a b : String}
    (h : (unusedImport a).message = (unusedImport b).message) : a = b := by
  have htext : "unused import '" ++ a ++ "'" = "unused import '" ++ b ++ "'" := h
  exact (String.append_right_inj _).1 ((String.append_left_inj _).1 htext)

/-- A warning on a program is about an import that is not mentioned in it. -/
theorem Program.not_mem_names_of_warning {p : Program} {table : SymbolTable}
    {path : String} {span : Span}
    (h : (Problem.unusedImport path).diagnostic span ∈ (p.annotate table).diagnostics) :
    lastSegment path ∉ p.names := by
  obtain ⟨n, hn, hdiagnostic⟩ := List.mem_filterMap.1 h
  cases n with
  | typed | adopted => cases hdiagnostic
  | report q span' =>
    have hsame : q.diagnostic span' = (Problem.unusedImport path).diagnostic span :=
      Option.some.inj hdiagnostic
    have hseverity : q.severity = .warning := congrArg Diagnostic.severity hsame
    have hmessage : q.message = (Problem.unusedImport path).message :=
      congrArg Diagnostic.message hsame
    -- Classes give errors only, so a warning comes from the pass over the imports.
    rcases List.mem_append.1 hn with hn | hn
    · have herror : q.severity = .error :=
        faults_flatMap (fun d _ => d.faults_annotate table) q span' hn
      rw [herror] at hseverity
      cases hseverity
    · obtain ⟨i, hi, hreport⟩ := List.mem_filterMap.1 hn
      split at hreport
      · cases hreport
      · next hunused =>
        injection hreport with hreport
        injection hreport with hq _
        subst hq
        rw [← Problem.eq_of_message_unusedImport hmessage]
        simpa using hunused

end MiniJava
