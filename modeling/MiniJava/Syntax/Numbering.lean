import MiniJava.Syntax.Traversal

/-!
# Node ids

`Program.number` gives every expression its place in source order as its id, counting from zero and
each expression before its parts. `Program.uniqueIds` tells whether ids identify expressions: it
keeps a stack of expressions still to visit, the last one on top, and the ids seen.
-/

namespace MiniJava

namespace Expr

mutual

/-- Numbers an expression and its parts from `n` on, and returns the next free number. -/
def number : Expr → Nat → Expr × Nat
  | int i v, n => (int (i.withId n) v, n + 1)
  | bool i v, n => (bool (i.withId n) v, n + 1)
  | var i x, n => (var (i.withId n) x, n + 1)
  | this i, n => (this (i.withId n), n + 1)
  | newObject i c, n => (newObject (i.withId n) c, n + 1)
  | not i e, n => let (e, m) := e.number (n + 1); (not (i.withId n) e, m)
  | newArray i e, n => let (e, m) := e.number (n + 1); (newArray (i.withId n) e, m)
  | length i e, n => let (e, m) := e.number (n + 1); (length (i.withId n) e, m)
  | paren i e, n => let (e, m) := e.number (n + 1); (paren (i.withId n) e, m)
  | binary i op l r, n =>
    let (l, m) := l.number (n + 1)
    let (r, k) := r.number m
    (binary (i.withId n) op l r, k)
  | index i a x, n =>
    let (a, m) := a.number (n + 1)
    let (x, k) := x.number m
    (index (i.withId n) a x, k)
  | call i r f args, n =>
    let (r, m) := r.number (n + 1)
    let (args, k) := numberAll args m
    (call (i.withId n) r f args, k)

def numberAll : List Expr → Nat → List Expr × Nat
  | [], n => ([], n)
  | e :: es, n =>
    let (e, m) := e.number n
    let (es, k) := numberAll es m
    (e :: es, k)

end

end Expr

namespace Stmt

mutual

/-- Numbers the expressions of a statement from `n` on. -/
def number : Stmt → Nat → Stmt × Nat
  | varDecl s d, n => (varDecl s d, n)
  | block s body, n => let (body, m) := numberAll body n; (block s body, m)
  | ifThen s c t, n =>
    let (c, m) := c.number n
    let (t, k) := t.number m
    (ifThen s c t, k)
  | ifElse s c t e, n =>
    let (c, m) := c.number n
    let (t, k) := t.number m
    let (e, j) := e.number k
    (ifElse s c t e, j)
  | whileLoop s c b, n =>
    let (c, m) := c.number n
    let (b, k) := b.number m
    (whileLoop s c b, k)
  | expr s e, n => let (e, m) := e.number n; (expr s e, m)
  | assign s x v, n => let (v, m) := v.number n; (assign s x v, m)
  | arrayAssign s x i v, n =>
    let (i, m) := i.number n
    let (v, k) := v.number m
    (arrayAssign s x i v, k)
  | ret s none, n => (ret s none, n)
  | ret s (some v), n => let (v, m) := v.number n; (ret s (some v), m)

def numberAll : List Stmt → Nat → List Stmt × Nat
  | [], n => ([], n)
  | s :: ss, n =>
    let (s, m) := s.number n
    let (ss, k) := numberAll ss m
    (s :: ss, k)

end

end Stmt

/-- Numbers the methods of a class one after the other. -/
def MethodDecl.numberAll : List MethodDecl → Nat → List MethodDecl × Nat
  | [], n => ([], n)
  | d :: ds, n =>
    let (body, m) := Stmt.numberAll d.body n
    let (ds, k) := numberAll ds m
    ({ d with body } :: ds, k)

/-- Numbers the classes of a program one after the other. -/
def ClassDecl.numberAll : List ClassDecl → Nat → List ClassDecl × Nat
  | [], n => ([], n)
  | c :: cs, n =>
    let (methods, m) := MethodDecl.numberAll c.methods n
    let (cs, k) := numberAll cs m
    ({ c with methods } :: cs, k)

namespace Program

/-- Gives every expression its place in source order as its id, and returns their number. -/
def number (p : Program) : Program × Nat :=
  let (classes, n) := ClassDecl.numberAll p.classes 0
  ({ p with classes }, n)

end Program

/-! ## Unique ids -/

namespace Expr

mutual

/-- The number of expressions in a tree. -/
def size : Expr → Nat
  | int .. | bool .. | var .. | this .. | newObject .. => 1
  | not _ e | newArray _ e | length _ e | paren _ e => e.size + 1
  | binary _ _ l r => l.size + r.size + 1
  | index _ a i => a.size + i.size + 1
  | call _ r _ args => r.size + sizeAll args + 1

def sizeAll : List Expr → Nat
  | [] => 0
  | e :: es => e.size + sizeAll es

end

theorem sizeAll_append (xs ys : List Expr) : sizeAll (xs ++ ys) = sizeAll xs + sizeAll ys := by
  induction xs with
  | nil => simp [sizeAll]
  | cons x xs ih => simp [sizeAll, ih, Nat.add_assoc]

theorem sizeAll_children (e : Expr) : sizeAll e.children + 1 = e.size := by
  cases e <;> simp [children, size, sizeAll]

theorem sizeAll_reverse (es : List Expr) : sizeAll es.reverse = sizeAll es := by
  induction es with
  | nil => rfl
  | cons e es ih => simp [sizeAll, sizeAll_append, ih, Nat.add_comm]

/-- No id occurs twice among the pending expressions and their parts, nor in `seen`. The parts of
the expression on top are put in its place, the last one on top, and the first id seen before ends
the search. -/
def uniqueIds (pending : List Expr) (seen : List Nat) : Bool :=
  match pending with
  | [] => true
  | e :: rest =>
    if seen.contains e.id then false
    else uniqueIds (e.children.reverse ++ rest) (e.id :: seen)
termination_by sizeAll pending
decreasing_by
  have := sizeAll_children e
  simp only [sizeAll, sizeAll_append, sizeAll_reverse]
  omega

end Expr

/-- No two expressions of the program share an id. -/
def Program.uniqueIds (p : Program) : Bool :=
  Expr.uniqueIds (p.statements.flatMap Stmt.roots).reverse []

end MiniJava
