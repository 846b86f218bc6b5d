import MiniJava.Syntax.Basic

/-!
# Building trees

Trees made by a program rather than read from a text. Their positions are unknown. A `Builder` hands
out the ids of expressions, one after the other, so the expressions of one builder have different
ids; those of two builders may not.
-/

namespace MiniJava

structure Builder where
  /-- The number of ids handed out so far. -/
  issued : Nat := 0

/-- Something made with ids from a builder. -/
abbrev Built := StateM Builder

namespace Builder

/-- The node of a new expression. -/
def node : Built Node := fun b => ({ id := b.issued }, { issued := b.issued + 1 })

def int (value : Int32) : Built Expr := do return .int (← node) value

def bool (value : Bool) : Built Expr := do return .bool (← node) value

def var (name : String) : Built Expr := do return .var (← node) name

def this : Built Expr := do return .this (← node)

def not (operand : Expr) : Built Expr := do return .not (← node) operand

def binary (op : BinOp) (left right : Expr) : Built Expr := do
  return .binary (← node) op left right

def call (receiver : Expr) (method : String) (args : List Expr) : Built Expr := do
  return .call (← node) receiver { node := method } args

def newObject (name : String) : Built Expr := do return .newObject (← node) { node := name }

def newArray (size : Expr) : Built Expr := do return .newArray (← node) size

def length (array : Expr) : Built Expr := do return .length (← node) array

def index (array index : Expr) : Built Expr := do return .index (← node) array index

def paren (inner : Expr) : Built Expr := do return .paren (← node) inner

end Builder

/-! ## Statements and declarations -/

def VarDecl.named (name : String) (ty : Ty) : VarDecl :=
  { name := { node := name }, ty := { node := ty } }

namespace Stmt

def declare (name : String) (ty : Ty) : Stmt := varDecl .unknown (.named name ty)

def sequence (body : List Stmt) : Stmt := block .unknown body

/-- A branch with or without `else`. -/
def choose (cond : Expr) (thenBranch : Stmt) : Option Stmt → Stmt
  | some elseBranch => ifElse .unknown cond thenBranch elseBranch
  | none => ifThen .unknown cond thenBranch

def loop (cond : Expr) (body : Stmt) : Stmt := whileLoop .unknown cond body

def evaluate (value : Expr) : Stmt := expr .unknown value

def set (target : String) (value : Expr) : Stmt := assign .unknown { node := target } value

def setItem (target : String) (index value : Expr) : Stmt :=
  arrayAssign .unknown { node := target } index value

def give (value : Option Expr) : Stmt := ret .unknown value

end Stmt

namespace MethodDecl

/-- A public method of instances without parameters and statements. -/
def named (name : String) (returnTy : Ty) : MethodDecl :=
  { isPublic := true, name := { node := name }, returnTy := { node := returnTy } }

def withParam (m : MethodDecl) (name : String) (ty : Ty) : MethodDecl :=
  { m with params := m.params ++ [.named name ty] }

def withBody (m : MethodDecl) (body : List Stmt) : MethodDecl := { m with body }

def asStatic (m : MethodDecl) : MethodDecl := { m with isStatic := true }

def asPrivate (m : MethodDecl) : MethodDecl := { m with isPublic := false }

end MethodDecl

namespace ClassDecl

/-- A class without members. -/
def named (name : String) : ClassDecl := { name := { node := name } }

def withSuper (c : ClassDecl) (name : String) : ClassDecl :=
  { c with superName := some { node := name } }

def withField (c : ClassDecl) (name : String) (ty : Ty) : ClassDecl :=
  { c with fields := c.fields ++ [.named name ty] }

def withMethod (c : ClassDecl) (m : MethodDecl) : ClassDecl :=
  { c with methods := c.methods ++ [m] }

end ClassDecl

def Program.ofClasses (imports : List String) (classes : List ClassDecl) : Program :=
  { imports := imports.map fun path => { node := path }, classes }

end MiniJava
