import MiniJava.Syntax.Basic

/-!
# Walking the tree

`Expr.children` are the direct parts of an expression and `Stmt.roots` the expressions that stand
directly in a statement or in one nested in it, both from left to right. `Expr.subtree` lists an
expression before its parts, so that together with `Stmt.roots` it gives all expressions of a
program in the order in which they are numbered.
-/

namespace MiniJava

namespace Expr

/-- The direct parts, from left to right. -/
def children : Expr → List Expr
  | int .. | bool .. | var .. | this .. | newObject .. => []
  | not _ e | newArray _ e | length _ e | paren _ e => [e]
  | binary _ _ l r => [l, r]
  | call _ r _ args => r :: args
  | index _ a i => [a, i]

mutual

/-- The expression itself, followed by the subtrees of its parts. -/
def subtree : Expr → List Expr
  | int n v => [int n v]
  | bool n v => [bool n v]
  | var n x => [var n x]
  | this n => [this n]
  | newObject n c => [newObject n c]
  | not n e => not n e :: e.subtree
  | newArray n e => newArray n e :: e.subtree
  | length n e => length n e :: e.subtree
  | paren n e => paren n e :: e.subtree
  | binary n op l r => binary n op l r :: (l.subtree ++ r.subtree)
  | index n a i => index n a i :: (a.subtree ++ i.subtree)
  | call n r m args => call n r m args :: (r.subtree ++ subtrees args)

def subtrees : List Expr → List Expr
  | [] => []
  | e :: es => e.subtree ++ subtrees es

end

theorem subtrees_eq_flatMap (es : List Expr) : subtrees es = es.flatMap subtree := by
  induction es with
  | nil => rfl
  | cons e es ih => simp [subtrees, ih]

theorem subtree_eq_cons (e : Expr) : e.subtree = e :: e.children.flatMap subtree := by
  cases e <;> simp [subtree, children, subtrees_eq_flatMap]

/-- The expression without the parentheses around it. -/
def strip : Expr → Expr
  | paren _ e => e.strip
  | e => e

end Expr

namespace Stmt

mutual

/-- The expressions that stand in a statement or in one nested in it, in source order. -/
def roots : Stmt → List Expr
  | varDecl .. => []
  | block _ body => rootsAll body
  | ifThen _ c t => c :: t.roots
  | ifElse _ c t e => c :: (t.roots ++ e.roots)
  | whileLoop _ c b => c :: b.roots
  | expr _ e => [e]
  | assign _ _ v => [v]
  | arrayAssign _ _ i v => [i, v]
  | ret _ v => v.toList

def rootsAll : List Stmt → List Expr
  | [] => []
  | s :: ss => s.roots ++ rootsAll ss

end

theorem rootsAll_eq_flatMap (ss : List Stmt) : rootsAll ss = ss.flatMap roots := by
  induction ss with
  | nil => rfl
  | cons s ss ih => simp [rootsAll, ih]

mutual

/-- Every path through the statement ends in a `return`. Loops never count. -/
def definitelyReturns : Stmt → Bool
  | ret .. => true
  | block _ body => lastReturns body
  | ifElse _ _ t e => t.definitelyReturns && e.definitelyReturns
  | _ => false

/-- The last of the statements definitely returns. -/
def lastReturns : List Stmt → Bool
  | [] => false
  | [s] => s.definitelyReturns
  | _ :: s :: ss => lastReturns (s :: ss)

end

end Stmt

/-- All expressions of all method bodies, each before its parts. -/
def Program.exprs (p : Program) : List Expr :=
  (p.statements.flatMap Stmt.roots).flatMap Expr.subtree

end MiniJava
