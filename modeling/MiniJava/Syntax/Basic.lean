import MiniJava.Span
import MiniJava.Ty

/-!
# Syntax trees

The tree of a parsed program: imports and classes, with fields and methods, statements and
expressions. Every expression has a `Node`, its identity and its place; the results of the
annotator are kept beside the tree, by the id of the node.

An `if` with and without `else` are two kinds of statement, so that a rule for branches never has
to ask whether there is a second one.
-/

namespace MiniJava

inductive BinOp where
  | add
  | sub
  | mul
  | div
  | lt
  | and
deriving DecidableEq

namespace BinOp

def symbol : BinOp → String
  | add => "+"
  | sub => "-"
  | mul => "*"
  | div => "/"
  | lt => "<"
  | and => "&&"

/-- The type both operands must have. -/
def operandTy : BinOp → Ty
  | and => .bool
  | _ => .int

def resultTy : BinOp → Ty
  | lt | and => .bool
  | _ => .int

end BinOp

/-- The identity of an expression and its place in the source. -/
structure Node where
  id : Nat := 0
  span : Span := Span.unknown
deriving DecidableEq

def Node.withId (n : Node) (id : Nat) : Node := { n with id }

inductive Expr where
  | int (node : Node) (value : Int32)
  | bool (node : Node) (value : Bool)
  | var (node : Node) (name : String)
  | this (node : Node)
  | not (node : Node) (operand : Expr)
  | binary (node : Node) (op : BinOp) (left right : Expr)
  | call (node : Node) (receiver : Expr) (method : Located String) (args : List Expr)
  | newObject (node : Node) (name : Located String)
  | newArray (node : Node) (size : Expr)
  | length (node : Node) (array : Expr)
  | index (node : Node) (array index : Expr)
  | paren (node : Node) (inner : Expr)

namespace Expr

def node : Expr → Node
  | int n _ | bool n _ | var n _ | this n | not n _ | binary n _ _ _ | call n _ _ _
  | newObject n _ | newArray n _ | length n _ | index n _ _ | paren n _ => n

def id (e : Expr) : Nat := e.node.id

def span (e : Expr) : Span := e.node.span

end Expr

/-- A declared field, parameter or local variable. -/
structure VarDecl where
  name : Located String
  ty : Located Ty
deriving DecidableEq

inductive Stmt where
  | varDecl (span : Span) (decl : VarDecl)
  | block (span : Span) (body : List Stmt)
  | ifThen (span : Span) (cond : Expr) (thenBranch : Stmt)
  | ifElse (span : Span) (cond : Expr) (thenBranch elseBranch : Stmt)
  | whileLoop (span : Span) (cond : Expr) (body : Stmt)
  | expr (span : Span) (value : Expr)
  | assign (span : Span) (target : Located String) (value : Expr)
  | arrayAssign (span : Span) (target : Located String) (index value : Expr)
  | ret (span : Span) (value : Option Expr)

def Stmt.span : Stmt → Span
  | varDecl s _ | block s _ | ifThen s _ _ | ifElse s _ _ _ | whileLoop s _ _ | expr s _
  | assign s _ _ | arrayAssign s _ _ _ | ret s _ => s

structure MethodDecl where
  isPublic : Bool := false
  isStatic : Bool := false
  name : Located String
  returnTy : Located Ty
  params : List VarDecl := []
  body : List Stmt := []

structure ClassDecl where
  name : Located String
  superName : Option (Located String) := none
  fields : List VarDecl := []
  methods : List MethodDecl := []

structure Program where
  imports : List (Located String) := []
  classes : List ClassDecl

/-- The statements of all method bodies, in source order. -/
def Program.statements (p : Program) : List Stmt :=
  p.classes.flatMap fun c => c.methods.flatMap fun m => m.body

end MiniJava
