import MiniJava.Proofs.Annotation.Typing
import MiniJava.Syntax.Numbering
import Mathlib.Data.List.Nodup

/-!
# The type map holds what was noted

Types are kept by the ids of expressions, so two expressions with one id would overwrite each other.
Where ids are unique this cannot happen: the annotator gives a type to an expression at most once
(`Expr.noted_expect_le`), either because it found one or because the surroundings expect one. So the
type map of an accepted program has exactly the types that were noted (`Program.recorded_body`).
-/

namespace MiniJava

/-! ## Unique ids -/

namespace Expr

/-- The ids of all expressions in the trees. -/
def ids (es : List Expr) : List Nat := (es.flatMap subtree).map id

theorem ids_cons (e : Expr) (es : List Expr) : ids (e :: es) = e.id :: ids (e.children ++ es) := by
  simp [ids, subtree_eq_cons e]

theorem ids_append (es fs : List Expr) : ids (es ++ fs) = ids es ++ ids fs := by
  simp [ids]

theorem ids_perm {es fs : List Expr} (h : es.Perm fs) : (ids es).Perm (ids fs) :=
  (h.flatMap_right subtree).map id

theorem uniqueIds_iff {pending : List Expr} {seen : List Nat} :
    uniqueIds pending seen = true ↔ (ids pending).Nodup ∧ ∀ i ∈ ids pending, i ∉ seen := by
  fun_induction uniqueIds pending seen with
  | case1 seen => simp [ids]
  | case2 seen e rest hseen =>
    rw [List.contains_iff_mem] at hseen
    simp [ids_cons, hseen]
  | case3 seen e rest hseen ih =>
    rw [List.contains_iff_mem] at hseen
    have hperm : (ids (e.children.reverse ++ rest)).Perm (ids (e.children ++ rest)) :=
      ids_perm ((List.reverse_perm _).append_right rest)
    rw [ih, ids_cons, hperm.nodup_iff, List.nodup_cons, List.forall_mem_cons]
    simp only [hperm.mem_iff]
    grind

end Expr

theorem Program.uniqueIds_iff_nodup {p : Program} :
    p.uniqueIds = true ↔ (Expr.ids (p.statements.flatMap Stmt.roots)).Nodup := by
  rw [uniqueIds, Expr.uniqueIds_iff, (Expr.ids_perm (List.reverse_perm _)).nodup_iff]
  simp

/-- The ids of all expressions in the body. -/
def MethodDecl.ids (d : MethodDecl) : List Nat := Expr.ids (d.body.flatMap Stmt.roots)

theorem Program.ids_eq_flatMap (p : Program) : Expr.ids (p.statements.flatMap Stmt.roots) =
    p.classes.flatMap fun d => d.methods.flatMap fun md => md.ids := by
  simp only [Program.statements, Expr.ids, MethodDecl.ids, List.flatMap_assoc, List.map_flatMap]

/-! ## Counting notes -/

/-- The note gives a type to the expression with that id. -/
def Note.isAbout (i : Nat) : Note → Bool
  | typed id _ | adopted id _ => id == i
  | report .. => false

/-- How often the notes give a type to the expression with that id. -/
def noted (i : Nat) (notes : List Note) : Nat := notes.countP (·.isAbout i)

section

variable {i id : Nat} {ty : Ty}

@[simp] theorem noted_nil : noted i [] = 0 := rfl

@[simp] theorem noted_append (a b : List Note) : noted i (a ++ b) = noted i a + noted i b :=
  List.countP_append

@[simp] theorem Noted.noted_typed :
    noted i (Noted.note (.typed id ty)).notes = if id = i then 1 else 0 := by
  simp [Noted.note, noted, Note.isAbout, List.countP_cons]

@[simp] theorem Noted.noted_adopted :
    noted i (Noted.note (.adopted id ty)).notes = if id = i then 1 else 0 := by
  simp [Noted.note, noted, Note.isAbout, List.countP_cons]

@[simp] theorem Noted.noted_report (p : Problem) (span : Span) :
    noted i (Noted.report p span).notes = 0 := rfl

@[simp] theorem Noted.noted_reportIf (b : Bool) (p : Problem) (span : Span) :
    noted i (Noted.reportIf b p span).notes = 0 := by
  cases b <;> rfl

end

/-- One if the node has that id, and else zero. -/
def Node.counts (i : Nat) (n : Node) : Nat := if n.id = i then 1 else 0

namespace Expr

variable {sc : Scope} {i : Nat} {ty : Ty}

/-- How often the id occurs in the trees. -/
def occurs (i : Nat) (es : List Expr) : Nat := (ids es).count i

@[simp] theorem occurs_nil : occurs i [] = 0 := rfl

theorem occurs_append (es fs : List Expr) : occurs i (es ++ fs) = occurs i es + occurs i fs := by
  rw [occurs, ids_append, List.count_append]
  rfl

theorem occurs_cons (e : Expr) (es : List Expr) : occurs i (e :: es) = occurs i [e] + occurs i es :=
  occurs_append [e] es

/-- The node itself and its parts. -/
theorem occurs_singleton (e : Expr) : occurs i [e] = e.node.counts i + occurs i e.children := by
  simp only [occurs, ids_cons, List.append_nil, List.count_cons, beq_iff_eq, Node.counts, id]
  omega

@[simp] theorem noted_settle (n : Node) (found : Option Ty) :
    noted i (settle n found).notes = if found.isSome then n.counts i else 0 := by
  cases found <;> simp [settle, Node.counts]

@[simp] theorem noted_needType (e : Expr) (position : String) :
    noted i (e.needType position).notes = 0 := by
  unfold needType
  split <;> simp

@[simp] theorem noted_wantInt (problem : Ty → Problem) (span : Span) (found : Option Ty) :
    noted i (wantInt problem span found).notes = 0 := by
  cases found <;> simp [wantInt]

@[simp] theorem noted_varTy (x : String) (span : Span) : noted i (varTy sc x span).notes = 0 := by
  unfold varTy
  split <;> simp

@[simp] theorem noted_notTy (span : Span) (found : Option Ty) :
    noted i (notTy span found).notes = 0 := by
  unfold notTy
  split <;> simp

@[simp] theorem noted_binaryTy (span : Span) (op : BinOp) (left right : Option Ty) :
    noted i (binaryTy span op left right).notes = 0 := by
  simp only [binaryTy]
  split <;> simp

@[simp] theorem noted_lengthTy (array : Expr) (found : Option Ty) :
    noted i (lengthTy array found).notes = 0 := by
  cases found <;> simp [lengthTy]

@[simp] theorem noted_indexTy (array : Expr) (found : Option Ty) :
    noted i (indexTy array found).notes = 0 := by
  unfold indexTy
  split <;> simp

theorem noted_expect (e : Expr) (found : Noted (Option Ty)) :
    noted i (e.expect ty found).notes =
      noted i found.notes + if found.value.isSome then 0 else noted i (e.adopt ty).notes := by
  rw [expect, Noted.notes_bind, noted_append]
  cases found.value <;> simp

theorem noted_le_expect (e : Expr) (found : Noted (Option Ty)) :
    noted i found.notes ≤ noted i (e.expect ty found).notes := by
  rw [noted_expect]
  exact Nat.le_add_right ..

/-! Calls. -/

/-- What is noted on the arguments of a call, whatever is wanted from them. -/
theorem noted_all_le {args : List Expr} {f : Expr × Noted (Option Ty) → Noted Unit}
    (hf : ∀ a ∈ args, noted i (f (a, a.annotate sc)).notes ≤ occurs i [a]) :
    noted i (Noted.all ((annotateEach sc args).map f)).notes ≤ occurs i args := by
  induction args with
  | nil => exact Nat.zero_le _
  | cons a args ih =>
    rw [List.forall_mem_cons] at hf
    have hrest := ih hf.2
    simp only [annotateEach, List.map_cons, Noted.all, Noted.notes_bind, noted_append]
    rw [occurs_cons]
    exact Nat.add_le_add hf.1 hrest

theorem noted_knownArgs_le {args : List Expr} {method : String} {k : Nat} {ps : List Symbol}
    (hargs : ∀ a ∈ args, ∀ ty, noted i (a.expect ty (a.annotate sc)).notes ≤ occurs i [a]) :
    noted i (knownArgs sc method k (annotateEach sc args) ps).notes ≤ occurs i args := by
  induction args generalizing k ps with
  | nil => exact Nat.zero_le _
  | cons a args ih =>
    cases ps with
    | nil => exact Nat.zero_le _
    | cons p ps =>
      rw [List.forall_mem_cons] at hargs
      have hhead := hargs.1 p.ty
      have hrest := @ih (k + 1) ps hargs.2
      simp only [annotateEach, knownArgs, Noted.notes_bind, noted_append]
      rw [occurs_cons]
      split
      · simp only [Noted.notes_bind, noted_append, Noted.noted_reportIf]
        omega
      · omega

theorem noted_callTy_le {args : List Expr} {span : Span} {r : Expr} {method : String}
    (hargs : ∀ a ∈ args, ∀ ty, noted i (a.expect ty (a.annotate sc)).notes ≤ occurs i [a])
    (found : Option Ty) :
    noted i (callTy sc span r method (annotateEach sc args) found).notes ≤ occurs i args := by
  have hfree : noted i (freeArgs (annotateEach sc args)).notes ≤ occurs i args := by
    refine noted_all_le fun a ha => ?_
    simpa using Nat.le_trans (noted_le_expect a _) (hargs a ha .int)
  have hunknown : noted i (unknownArgs (annotateEach sc args)).notes ≤ occurs i args := by
    refine noted_all_le fun a ha => ?_
    simpa using hargs a ha .int
  unfold callTy
  split
  · split
    · split
      · split
        · simpa using noted_knownArgs_le hargs
        · simpa using hfree
      · simpa using hunknown
    · simpa using hunknown
  · simpa using hfree
  · simpa using hunknown

/-- One note is on the node itself, whether it has found a type or takes the expected one. What else
is noted are the notes on the parts. -/
theorem noted_node_le {e : Expr} {parts : Nat} {found : Option Ty} (he : ∀ n i, e ≠ paren n i)
    (hvalue : (e.annotate sc).value = found)
    (hnotes : noted i (e.annotate sc).notes = parts + noted i (settle e.node found).notes)
    (hparts : parts ≤ occurs i e.children) :
    noted i (e.expect ty (e.annotate sc)).notes ≤ occurs i [e] := by
  have hadopt : noted i (e.adopt ty).notes = e.node.counts i := by
    cases e with
    | paren n i => exact absurd rfl (he n i)
    | _ => exact Noted.noted_adopted
  rw [noted_expect, hvalue, hnotes, hadopt, occurs_singleton, noted_settle]
  cases found <;> simp <;> omega

/-- An expression is given a type at most once: one of its own, or else the one that is expected. -/
theorem noted_expect_le (e : Expr) (ty : Ty) :
    noted i (e.expect ty (e.annotate sc)).notes ≤ occurs i [e] := by
  induction e using Expr.induction generalizing ty with
  | int | bool | var | this | newObject =>
    exact noted_node_le (by simp) rfl (by simp [annotate, node]) (Nat.zero_le _)
  | not n e ih => exact noted_node_le (by simp) rfl (by simp [annotate, node]) (ih .bool)
  | newArray n e ih => exact noted_node_le (by simp) rfl (by simp [annotate, node]) (ih .int)
  | binary n op l r ihl ihr =>
    refine noted_node_le (by simp) rfl (by simp [annotate, node, ← Nat.add_assoc]; rfl) ?_
    rw [children, occurs_cons]
    exact Nat.add_le_add (ihl op.operandTy) (ihr op.operandTy)
  | call n r m args ihr ihargs =>
    refine noted_node_le (by simp) rfl (by simp [annotate, node, ← Nat.add_assoc]; rfl) ?_
    rw [children, occurs_cons]
    exact Nat.add_le_add (Nat.le_trans (noted_le_expect r _) (ihr .int))
      (noted_callTy_le ihargs _)
  | length n a ih =>
    exact noted_node_le (by simp) rfl (by simp [annotate, node])
      (Nat.le_trans (noted_le_expect a _) (ih .int))
  | index n a j iha ihj =>
    refine noted_node_le (by simp) rfl (by simp [annotate, node, ← Nat.add_assoc]; rfl) ?_
    rw [children, occurs_cons]
    exact Nat.add_le_add (Nat.le_trans (noted_le_expect a _) (iha .int)) (ihj .int)
  | paren n e ih =>
    -- The parentheses take a type exactly if what is inside takes it.
    have he := ih ty
    rw [noted_expect] at he ⊢
    rw [occurs_singleton, children]
    simp only [annotate, Noted.notes_bind, Noted.value_bind, value_settle,
      noted_append, noted_settle, node, adopt]
    have hn : noted i (Noted.note (.adopted n.id ty)).notes = n.counts i := Noted.noted_adopted
    cases hvalue : (e.annotate sc).value with
    | some t =>
      simp only [hvalue, Option.isSome_some, if_true] at he ⊢
      omega
    | none =>
      simp only [hvalue, Option.isSome_none, Bool.false_eq_true, if_false] at he ⊢
      omega

theorem noted_annotate_le (e : Expr) : noted i (e.annotate sc).notes ≤ occurs i [e] :=
  Nat.le_trans (noted_le_expect e _) (noted_expect_le e .int)

end Expr

namespace Stmt

open MiniJava.Expr

variable {sc : Scope} {i : Nat}

theorem noted_condition_le (keyword : String) (cond : Expr) :
    noted i (condition sc keyword cond).notes ≤ occurs i [cond] := by
  have hcond : noted i (cond.annotate sc).notes ≤ occurs i [cond] := noted_annotate_le cond
  rw [condition, Noted.notes_bind, noted_append]
  split <;> simpa using hcond

@[simp] theorem noted_target (x : Located String) : noted i (target sc x).notes = 0 := by
  unfold target
  split <;> simp

@[simp] theorem noted_elementTy (x : Located String) (found : Option Ty) :
    noted i (elementTy x found).notes = 0 := by
  unfold elementTy
  split <;> simp

theorem noted_fit_le (v : Expr) (expected : Ty) (fits : Ty → Bool) (problem : Ty → Problem)
    (span : Span) : noted i (fit sc v expected fits problem span).notes ≤ occurs i [v] := by
  have hv : noted i (v.expect expected (v.annotate sc)).notes ≤ occurs i [v] :=
    noted_expect_le v expected
  rw [fit, Noted.notes_bind, noted_append]
  split <;> simpa using hv

theorem noted_returned_le (span : Span) (v : Option Expr) :
    noted i (returned sc span v).notes ≤ occurs i v.toList := by
  cases v with
  | none => simp [returned]
  | some v =>
    rw [returned]
    split
    · simpa using noted_annotate_le v
    · exact noted_fit_le ..

theorem noted_effect_le (e : Expr) : noted i (effect sc e).notes ≤ occurs i [e] := by
  have he : noted i (e.expect .void (e.annotate sc)).notes ≤ occurs i [e] := noted_expect_le e .void
  have hannotate : noted i (e.annotate sc).notes ≤ occurs i [e] := noted_annotate_le e
  rw [noted_expect] at he
  rw [effect, Noted.notes_bind, noted_append]
  split
  · next hnone => simpa [hnone] using he
  · simpa using hannotate

theorem noted_annotateAll_le {ss : List Stmt}
    (hss : ∀ s ∈ ss, noted i (s.annotate sc).notes ≤ occurs i s.roots) :
    noted i (annotateAll sc ss).notes ≤ occurs i (rootsAll ss) := by
  induction ss with
  | nil => exact Nat.zero_le _
  | cons s ss ih =>
    rw [List.forall_mem_cons] at hss
    rw [annotateAll, rootsAll, Noted.notes_bind, noted_append, occurs_append]
    exact Nat.add_le_add hss.1 (ih hss.2)

/-- In a statement too, every expression is given a type at most once. -/
theorem noted_annotate_le (s : Stmt) : noted i (s.annotate sc).notes ≤ occurs i s.roots := by
  induction s using Stmt.induction with
  | varDecl sp d => exact Nat.zero_le _
  | block sp body ih =>
    rw [annotate, roots]
    exact noted_annotateAll_le ih
  | ifThen sp c t ih =>
    rw [annotate, roots, Noted.notes_bind, noted_append, occurs_cons]
    exact Nat.add_le_add (noted_condition_le ..) ih
  | ifElse sp c t e iht ihe =>
    simp only [annotate, Noted.notes_bind, noted_append]
    rw [roots, occurs_cons, occurs_append]
    exact Nat.add_le_add (noted_condition_le ..) (Nat.add_le_add iht ihe)
  | whileLoop sp c b ih =>
    rw [annotate, roots, Noted.notes_bind, noted_append, occurs_cons]
    exact Nat.add_le_add (noted_condition_le ..) ih
  | expr sp e => exact noted_effect_le e
  -- With an unknown target the value is annotated on its own, and still only once.
  | assign sp x v =>
    rw [annotate, roots, assignment, Noted.notes_bind, noted_append, noted_target, Nat.zero_add]
    split
    · exact noted_fit_le ..
    · simpa using Expr.noted_annotate_le v
  | arrayAssign sp x j v =>
    have hj : noted i (j.expect .int (j.annotate sc)).notes ≤ occurs i [j] := noted_expect_le j .int
    rw [roots, occurs_cons]
    simp only [annotate, elementAssignment, Noted.notes_bind, noted_append, noted_target,
      noted_wantInt, noted_elementTy, Nat.zero_add]
    refine Nat.add_le_add hj ?_
    split
    · exact noted_fit_le ..
    · simpa using Expr.noted_annotate_le v
  | ret sp v => exact noted_returned_le sp v

end Stmt

/-! ## Programs -/

theorem noted_flatMap_le {α : Type} {i : Nat} {l : List α} {f : α → List Note} {g : α → List Expr}
    (h : ∀ a ∈ l, noted i (f a) ≤ Expr.occurs i (g a)) :
    noted i (l.flatMap f) ≤ Expr.occurs i (l.flatMap g) := by
  induction l with
  | nil => exact Nat.zero_le _
  | cons a l ih =>
    rw [List.forall_mem_cons] at h
    rw [List.flatMap_cons, List.flatMap_cons, noted_append, Expr.occurs_append]
    exact Nat.add_le_add h.1 (ih h.2)

theorem MethodDecl.noted_annotate_le {table : SymbolTable} {cls : ClassSymbols} {i : Nat}
    (d : MethodDecl) : noted i (d.annotate table cls) ≤ Expr.occurs i (Stmt.rootsAll d.body) := by
  unfold annotate
  split
  · exact Nat.zero_le _
  · next method _ =>
    have hbody : noted i (Stmt.annotateAll (d.scope table cls method) d.body).notes ≤
        Expr.occurs i (Stmt.rootsAll d.body) :=
      Stmt.noted_annotateAll_le fun s _ => s.noted_annotate_le
    rw [noted_append]
    split <;> exact hbody

namespace Program

theorem noted_unusedImports {i : Nat} (p : Program) : noted i p.unusedImports = 0 := by
  rw [noted, List.countP_eq_zero]
  intro n hn
  obtain ⟨path, -, hpath⟩ := List.mem_filterMap.1 hn
  split at hpath
  · cases hpath
  · cases hpath
    exact Bool.false_ne_true

theorem noted_notes_le {i : Nat} (p : Program) (table : SymbolTable) :
    noted i (p.notes table) ≤ Expr.occurs i (p.statements.flatMap Stmt.roots) := by
  rw [notes, noted_append, noted_unusedImports, Nat.add_zero]
  simp only [statements, List.flatMap_assoc]
  refine noted_flatMap_le fun d _ => ?_
  unfold ClassDecl.annotate
  split
  · exact Nat.zero_le _
  · refine noted_flatMap_le fun md _ => ?_
    rw [← Stmt.rootsAll_eq_flatMap]
    exact md.noted_annotate_le

end Program

/-! ## Recorded notes -/

/-- The expression with this id has this type. -/
def TypeMap.Has (types : TypeMap) (id : Nat) (ty : Ty) : Prop := types.get? id = some ty

namespace TypeMap

/-- A note on another expression does not change the type. -/
theorem get?_record_of_not_about {i : Nat} {n : Note} (h : n.isAbout i = false) (m : TypeMap) :
    (m.record n).get? i = m.get? i := by
  cases n with
  | typed k ty =>
    have hne : i ≠ k := fun heq => by simp [Note.isAbout, heq] at h
    rw [record, get?_insert, if_neg hne]
  | adopted k ty =>
    have hne : i ≠ k := fun heq => by simp [Note.isAbout, heq] at h
    rw [record, insertIfNew]
    split
    · rfl
    · rw [get?_insert, if_neg hne]
  | report p span => rfl

theorem get?_foldl_of_noted_eq_zero {i : Nat} {notes : List Note} (h : noted i notes = 0)
    (m : TypeMap) : (notes.foldl record m).get? i = m.get? i := by
  induction notes generalizing m with
  | nil => rfl
  | cons n notes ih =>
    rw [noted, List.countP_eq_zero, List.forall_mem_cons] at h
    rw [List.foldl_cons, ih (List.countP_eq_zero.2 h.2)]
    exact get?_record_of_not_about (Bool.not_eq_true _ ▸ h.1) m

/-- The first type that is noted for an expression is recorded. -/
theorem recorded_record {m : TypeMap} {n : Note} (hquiet : Quiet [n])
    (hnew : ∀ i, n.isAbout i = true → m.get? i = none) : n.Holds (m.record n).Has := by
  cases n with
  | typed k ty =>
    rw [Note.Holds, Has, record, get?_insert, if_pos rfl]
  | adopted k ty =>
    have hk : m.get? k = none := hnew k (beq_self_eq_true k)
    rw [Note.Holds, Has, record, insertIfNew, hk]
    simp only [get?_insert, if_true]
  | report p span => exact quiet_report.1 hquiet

end TypeMap

theorem Note.Holds.of_get?_eq {types types' : TypeMap} {n : Note} (h : n.Holds types.Has)
    (heq : ∀ i, n.isAbout i = true → types'.get? i = types.get? i) : n.Holds types'.Has := by
  cases n with
  | typed k ty => exact (heq k (beq_self_eq_true k)).trans h
  | adopted k ty => exact (heq k (beq_self_eq_true k)).trans h
  | report p span => exact h

/-- Where no expression is given a type twice, all notes without errors are recorded. -/
theorem recorded_ofNotes {notes : List Note} (hquiet : Quiet notes)
    (honce : ∀ i, noted i notes ≤ 1) : Hold (TypeMap.ofNotes notes).Has notes := by
  intro n hn
  obtain ⟨before, after, rfl⟩ := List.append_of_mem hn
  have hsplit : ∀ i, n.isAbout i = true → noted i before = 0 ∧ noted i after = 0 := by
    intro i hi
    have hle := honce i
    simp only [noted, List.countP_append, List.countP_cons, hi, if_true] at hle ⊢
    omega
  have hn : Quiet [n] := by
    intro p span hp
    exact hquiet p span (List.mem_append_right _ (by rw [List.mem_singleton.1 hp]; simp))
  have hfirst : n.Holds ((before.foldl TypeMap.record .empty).record n).Has := by
    refine TypeMap.recorded_record hn fun i hi => ?_
    rw [TypeMap.get?_foldl_of_noted_eq_zero (hsplit i hi).1]
    rfl
  refine hfirst.of_get?_eq fun i hi => ?_
  have hlast := TypeMap.get?_foldl_of_noted_eq_zero (hsplit i hi).2
    ((before.foldl TypeMap.record .empty).record n)
  rw [← hlast, ← List.foldl_cons, ← List.foldl_append]
  rfl

namespace Program

variable {p : Program} {table : SymbolTable} {a : Annotation}

/-- With unique ids, the types of an accepted program are those that were noted. -/
theorem recorded_notes (hids : p.uniqueIds = true) (h : p.check table = .ok a) :
    Hold a.types.Has (p.notes table) := by
  obtain ⟨hquiet, rfl⟩ := check_ok_iff.1 h
  refine recorded_ofNotes hquiet fun i => Nat.le_trans (p.noted_notes_le table) ?_
  exact List.nodup_iff_count_le_one.1 (uniqueIds_iff_nodup.1 hids) i

theorem recorded_body (hids : p.uniqueIds = true) (h : p.check table = .ok a) {d : ClassDecl}
    (hd : d ∈ p.classes) {cls : ClassSymbols} (hcls : table.class? d.name.node = some cls)
    {md : MethodDecl} (hmd : md ∈ d.methods) {method : MethodSymbols}
    (hmethod : cls.method? md.name.node = some method) :
    Hold a.types.Has (Stmt.annotateAll (md.scope table cls method) md.body).notes :=
  fun n hn => recorded_notes hids h n (notes_body_subset hd hcls hmd hmethod hn)

end Program

end MiniJava
