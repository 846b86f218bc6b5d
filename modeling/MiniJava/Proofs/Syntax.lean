import MiniJava.Syntax.Traversal

/-!
# Induction on trees

Arguments of a call and statements of a block stand in lists inside the tree. The principles here
give the hypothesis for every member of such a list, so that a proof about trees is one induction
and, where it needs one, a second induction on the list.
-/

namespace MiniJava

/-- Induction on expressions. The hypothesis of a call is about its receiver and each argument. -/
theorem Expr.induction {P : Expr → Prop}
    (int : ∀ n v, P (.int n v)) (bool : ∀ n v, P (.bool n v)) (var : ∀ n x, P (.var n x))
    (this : ∀ n, P (.this n)) (not : ∀ n e, P e → P (.not n e))
    (binary : ∀ n op l r, P l → P r → P (.binary n op l r))
    (call : ∀ n r m args, P r → (∀ a ∈ args, P a) → P (.call n r m args))
    (newObject : ∀ n c, P (.newObject n c)) (newArray : ∀ n e, P e → P (.newArray n e))
    (length : ∀ n a, P a → P (.length n a)) (index : ∀ n a i, P a → P i → P (.index n a i))
    (paren : ∀ n e, P e → P (.paren n e)) (e : Expr) : P e := by
  refine @Expr.rec P (fun es => ∀ a ∈ es, P a) int bool var this not binary call newObject newArray
    length index paren ?_ ?_ e
  · intro a ha
    cases ha
  · intro e es he hes a ha
    rcases List.mem_cons.1 ha with rfl | ha
    · exact he
    · exact hes a ha

/-- Induction on expressions for what is the same for all kinds. -/
theorem Expr.induction_children {P : Expr → Prop}
    (step : ∀ e : Expr, (∀ d ∈ e.children, P d) → P e) (e : Expr) : P e := by
  induction e using Expr.induction with
  | int | bool | var | this | newObject => exact step _ nofun
  | not n e ih | newArray n e ih | length n e ih | paren n e ih =>
    exact step _ (List.forall_mem_singleton.2 ih)
  | binary n op a b iha ihb | index n a b iha ihb =>
    exact step _ (List.forall_mem_cons.2 ⟨iha, List.forall_mem_singleton.2 ihb⟩)
  | call n r m args ihr ihargs => exact step _ (List.forall_mem_cons.2 ⟨ihr, ihargs⟩)

/-- Induction on statements. The hypothesis of a block is about each statement in it. -/
theorem Stmt.induction {P : Stmt → Prop}
    (varDecl : ∀ s d, P (.varDecl s d)) (block : ∀ s body, (∀ t ∈ body, P t) → P (.block s body))
    (ifThen : ∀ s c t, P t → P (.ifThen s c t))
    (ifElse : ∀ s c t e, P t → P e → P (.ifElse s c t e))
    (whileLoop : ∀ s c b, P b → P (.whileLoop s c b)) (expr : ∀ s e, P (.expr s e))
    (assign : ∀ s x v, P (.assign s x v)) (arrayAssign : ∀ s x i v, P (.arrayAssign s x i v))
    (ret : ∀ s v, P (.ret s v)) (s : Stmt) : P s := by
  refine @Stmt.rec P (fun ss => ∀ t ∈ ss, P t) varDecl block ifThen ifElse whileLoop expr assign
    arrayAssign ret ?_ ?_ s
  · intro t ht
    cases ht
  · intro s ss hs hss t ht
    rcases List.mem_cons.1 ht with rfl | ht
    · exact hs
    · exact hss t ht

end MiniJava
