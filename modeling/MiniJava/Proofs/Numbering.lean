import MiniJava.Proofs.Annotation.Recorded
import MiniJava.Proofs.Bundle.RoundTrip

/-!
# Numbers follow the source order

**Theorem** (`number_in_source_order`). Numbering a program gives its expressions the ids `0`, `1`,
… in the order in which they are met by visiting its statements one after the other and each
expression before its parts. It returns the number of expressions and changes nothing else, so that
the ids are unique and numbering again is no change.

Trees are numbered from left to right with one counter. What one tree is given is therefore an
interval that starts where the one before it ends (`NumbersFrom.append`).
-/

namespace MiniJava

namespace Expr

/-! ## Visiting -/

/-- Visiting the trees from left to right, each expression before its parts, meets these
expressions. -/
inductive Visits : List Expr → List Expr → Prop
  | nil : Visits [] []
  | cons {e : Expr} {es below rest : List Expr} : Visits e.children below → Visits es rest →
      Visits (e :: es) (e :: (below ++ rest))

theorem visits_flatMap {es : List Expr}
    (h : ∀ e ∈ es, Visits e.children (e.children.flatMap subtree)) :
    Visits es (es.flatMap subtree) := by
  induction es with
  | nil => exact .nil
  | cons e es ih =>
    rw [List.forall_mem_cons] at h
    rw [List.flatMap_cons, subtree_eq_cons, List.cons_append]
    exact .cons h.1 (ih h.2)

theorem visits_children (e : Expr) : Visits e.children (e.children.flatMap subtree) := by
  induction e using Expr.induction_children with
  | step e ih => exact visits_flatMap ih

theorem Visits.eq_flatMap {es visited : List Expr} (h : Visits es visited) :
    visited = es.flatMap subtree := by
  induction h with
  | nil => rfl
  | cons _ _ ihbelow ihrest =>
    rw [List.flatMap_cons, subtree_eq_cons, ihbelow, ihrest, List.cons_append]

/-- There is one way to visit trees. -/
theorem visits_iff {es visited : List Expr} : Visits es visited ↔ visited = es.flatMap subtree :=
  ⟨Visits.eq_flatMap, fun h => h ▸ visits_flatMap fun e _ => e.visits_children⟩

/-- As many expressions are met as there are. -/
theorem Visits.length_eq {es visited : List Expr} (h : Visits es visited) :
    visited.length = sizeAll es := by
  induction h with
  | nil => rfl
  | @cons e es below rest _ _ ihbelow ihrest =>
    rw [List.length_cons, List.length_append, ihbelow, ihrest, sizeAll, ← sizeAll_children]
    omega

/-! ## Numbering from left to right -/

/-- The trees `es` are numbered from `n` on as the trees `es'`, and `m` is the next free number. -/
structure NumbersFrom (n m : Nat) (es es' : List Expr) : Prop where
  next : m = n + sizeAll es
  ids_eq : ids es' = List.range' n (sizeAll es)

namespace NumbersFrom

variable {n m k : Nat} {e e' : Expr} {es es' fs fs' : List Expr}

theorem nil : NumbersFrom n n [] [] := ⟨rfl, rfl⟩

/-- The numbers of the second trees go on where those of the first end. -/
theorem append (hes : NumbersFrom n m es es') (hfs : NumbersFrom m k fs fs') :
    NumbersFrom n k (es ++ fs) (es' ++ fs') := by
  obtain ⟨rfl, hes⟩ := hes
  obtain ⟨rfl, hfs⟩ := hfs
  refine ⟨?_, ?_⟩
  · rw [sizeAll_append, Nat.add_assoc]
  · rw [ids_append, hes, hfs, sizeAll_append, List.range'_append_1]

/-- An expression has the first number, and its parts the ones that follow. -/
theorem node (hid : e'.id = n) (hparts : NumbersFrom (n + 1) m e.children e'.children) :
    NumbersFrom n m [e] [e'] := by
  obtain ⟨rfl, hparts⟩ := hparts
  have hsize : sizeAll [e] = sizeAll e.children + 1 := by
    rw [sizeAll_children, sizeAll, sizeAll, Nat.add_zero]
  refine ⟨?_, ?_⟩
  · rw [hsize]
    omega
  · rw [ids_cons, List.append_nil, hid, hparts, hsize, List.range'_succ]

end NumbersFrom

theorem numbersFrom_all {es : List Expr}
    (h : ∀ e ∈ es, ∀ n, NumbersFrom n (e.number n).2 [e] [(e.number n).1]) (n : Nat) :
    NumbersFrom n (numberAll es n).2 es (numberAll es n).1 := by
  induction es generalizing n with
  | nil => exact .nil
  | cons e es ih =>
    rw [List.forall_mem_cons] at h
    exact (h.1 n).append (ih h.2 _)

theorem numbersFrom_number (e : Expr) (n : Nat) :
    NumbersFrom n (e.number n).2 [e] [(e.number n).1] := by
  induction e using Expr.induction generalizing n with
  | int | bool | var | this | newObject => exact .node rfl .nil
  | not i e ih | newArray i e ih | length i e ih | paren i e ih => exact .node rfl (ih (n + 1))
  | binary i op l r ihl ihr | index i l r ihl ihr => exact .node rfl ((ihl (n + 1)).append (ihr _))
  | call i r m args ihr ihargs =>
    exact .node rfl ((ihr (n + 1)).append (numbersFrom_all ihargs _))

theorem outline_numberAll {es : List Expr} {place : Span → Span}
    (h : ∀ e ∈ es, ∀ n, (e.number n).1.outline place = e.outline place) (n : Nat) :
    outlineAll place (numberAll es n).1 = outlineAll place es := by
  induction es generalizing n with
  | nil => rfl
  | cons e es ih =>
    rw [List.forall_mem_cons] at h
    rw [numberAll, outlineAll, outlineAll, h.1, ih h.2]

/-- Only ids change. -/
theorem outline_number (e : Expr) (place : Span → Span) (n : Nat) :
    (e.number n).1.outline place = e.outline place := by
  induction e using Expr.induction generalizing n with
  | int | bool | var | this | newObject => rfl
  | not i e ih | newArray i e ih | length i e ih | paren i e ih =>
    rw [number, outline, outline, ih]
    rfl
  | binary i op l r ihl ihr | index i l r ihl ihr =>
    rw [number, outline, outline, ihl, ihr]
    rfl
  | call i r m args ihr ihargs =>
    rw [number, outline, outline, ihr, outline_numberAll ihargs]
    rfl

end Expr

/-! ## Statements and declarations -/

open MiniJava.Expr (NumbersFrom)

namespace Stmt

theorem numbersFrom_all {ss : List Stmt}
    (h : ∀ s ∈ ss, ∀ n, NumbersFrom n (s.number n).2 s.roots (s.number n).1.roots) (n : Nat) :
    NumbersFrom n (numberAll ss n).2 (rootsAll ss) (rootsAll (numberAll ss n).1) := by
  induction ss generalizing n with
  | nil => exact .nil
  | cons s ss ih =>
    rw [List.forall_mem_cons] at h
    exact (h.1 n).append (ih h.2 _)

theorem numbersFrom_number (s : Stmt) (n : Nat) :
    NumbersFrom n (s.number n).2 s.roots (s.number n).1.roots := by
  induction s using Stmt.induction generalizing n with
  | varDecl => exact .nil
  | block s body ih => exact numbersFrom_all ih n
  | ifThen s c t ih | whileLoop s c t ih => exact (c.numbersFrom_number n).append (ih _)
  | ifElse s c t e iht ihe => exact (c.numbersFrom_number n).append ((iht _).append (ihe _))
  | expr s e => exact e.numbersFrom_number n
  | assign s x v => exact v.numbersFrom_number n
  | arrayAssign s x i v => exact (i.numbersFrom_number n).append (v.numbersFrom_number _)
  | ret s v =>
    cases v with
    | none => exact .nil
    | some v => exact v.numbersFrom_number n

theorem outline_numberAll {ss : List Stmt} {place : Span → Span}
    (h : ∀ s ∈ ss, ∀ n, (s.number n).1.outline place = s.outline place) (n : Nat) :
    outlineAll place (numberAll ss n).1 = outlineAll place ss := by
  induction ss generalizing n with
  | nil => rfl
  | cons s ss ih =>
    rw [List.forall_mem_cons] at h
    rw [numberAll, outlineAll, outlineAll, h.1, ih h.2]

theorem outline_number (s : Stmt) (place : Span → Span) (n : Nat) :
    (s.number n).1.outline place = s.outline place := by
  induction s using Stmt.induction generalizing n with
  | varDecl => rfl
  | block s body ih => rw [number, outline, outline, outline_numberAll ih]
  | ifThen s c t ih | whileLoop s c t ih => rw [number, outline, outline, c.outline_number, ih]
  | ifElse s c t e iht ihe => rw [number, outline, outline, c.outline_number, iht, ihe]
  | expr s e => rw [number, outline, outline, e.outline_number]
  | assign s x v => rw [number, outline, outline, v.outline_number]
  | arrayAssign s x i v => rw [number, outline, outline, i.outline_number, v.outline_number]
  | ret s v =>
    cases v with
    | none => rfl
    | some v => rw [number, outline, outline, Option.map_some, Option.map_some, v.outline_number]

end Stmt

theorem MethodDecl.numbersFrom_numberAll (ds : List MethodDecl) (n : Nat) :
    NumbersFrom n (numberAll ds n).2 (ds.flatMap fun d => d.body.flatMap Stmt.roots)
      ((numberAll ds n).1.flatMap fun d => d.body.flatMap Stmt.roots) := by
  induction ds generalizing n with
  | nil => exact .nil
  | cons d ds ih =>
    have hbody := Stmt.numbersFrom_all (fun s (_ : s ∈ d.body) => s.numbersFrom_number) n
    rw [Stmt.rootsAll_eq_flatMap, Stmt.rootsAll_eq_flatMap] at hbody
    exact hbody.append (ih _)

theorem MethodDecl.outline_numberAll (ds : List MethodDecl) (place : Span → Span) (n : Nat) :
    (numberAll ds n).1.map (outline place) = ds.map (outline place) := by
  induction ds generalizing n with
  | nil => rfl
  | cons d ds ih =>
    have hbody := Stmt.outline_numberAll (fun s (_ : s ∈ d.body) => s.outline_number place) n
    rw [numberAll, List.map_cons, List.map_cons, ih, outline, outline, hbody]

theorem ClassDecl.numbersFrom_numberAll (ds : List ClassDecl) (n : Nat) :
    NumbersFrom n (numberAll ds n).2
      (ds.flatMap fun d => d.methods.flatMap fun md => md.body.flatMap Stmt.roots)
      ((numberAll ds n).1.flatMap fun d => d.methods.flatMap fun md =>
        md.body.flatMap Stmt.roots) := by
  induction ds generalizing n with
  | nil => exact .nil
  | cons d ds ih => exact (MethodDecl.numbersFrom_numberAll d.methods n).append (ih _)

theorem ClassDecl.outline_numberAll (ds : List ClassDecl) (place : Span → Span) (n : Nat) :
    (numberAll ds n).1.map (outline place) = ds.map (outline place) := by
  induction ds generalizing n with
  | nil => rfl
  | cons d ds ih =>
    rw [numberAll, List.map_cons, List.map_cons, ih, outline, outline, MethodDecl.outline_numberAll]

namespace Program

theorem numbersFrom_number (p : Program) :
    NumbersFrom 0 p.number.2 (p.statements.flatMap Stmt.roots)
    (p.number.1.statements.flatMap Stmt.roots) := by
  simp only [statements, List.flatMap_assoc]
  exact ClassDecl.numbersFrom_numberAll p.classes 0

theorem outline_number (p : Program) (place : Span → Span) :
    p.number.1.outline place = p.outline place := by
  rw [outline, outline, number, ClassDecl.outline_numberAll]

/-- Numbering a program that is numbered is no change. -/
theorem number_number (p : Program) : p.number.1.number = p.number := by
  rw [← number_outline p.number.1, outline_number, number_outline]

end Program

/-- **Numbers follow the source order.** The statements of a numbered program are visited one after
the other, and each expression before its parts, in exactly one way; the ids met are `0`, `1`, …
without gaps, as many as the program has expressions, and that number is returned. Nothing but ids
changed, the ids are unique, and numbering again gives the same program. -/
theorem number_in_source_order (p : Program) :
    (∀ visited, Expr.Visits (p.number.1.statements.flatMap Stmt.roots) visited ↔
      visited = p.number.1.exprs) ∧
    p.number.1.exprs.map Expr.id = List.range p.number.2 ∧
    p.number.2 = p.exprs.length ∧
    (p.number.1.outline fun s => s) = (p.outline fun s => s) ∧
    p.number.1.uniqueIds = true ∧
    p.number.1.number = p.number := by
  have hnumbers := p.numbersFrom_number
  have hcount : p.number.2 = Expr.sizeAll (p.statements.flatMap Stmt.roots) := by
    rw [hnumbers.next, Nat.zero_add]
  have hids : Expr.ids (p.number.1.statements.flatMap Stmt.roots) = List.range p.number.2 := by
    rw [hnumbers.ids_eq, hcount, List.range_eq_range']
  have hlength : p.exprs.length = Expr.sizeAll (p.statements.flatMap Stmt.roots) :=
    (Expr.visits_iff.2 rfl).length_eq
  refine ⟨fun visited => Expr.visits_iff, hids, hcount.trans hlength.symm, p.outline_number _, ?_,
    p.number_number⟩
  rw [Program.uniqueIds_iff_nodup, hids]
  exact List.nodup_range

end MiniJava
