import MiniJava.Annotation.Note
import MiniJava.ImportPath
import MiniJava.Syntax.Traversal

/-!
# Unused imports

An import is used when its last segment occurs in the program as the name of a superclass, in a
declared type, as a variable or after `new`.
-/

namespace MiniJava

/-- The class named in a type. -/
def Ty.names : Ty → List String
  | cls name => [name]
  | array e => e.names
  | _ => []

/-- The name that the expression itself, without its parts, mentions. -/
def Expr.ownName : Expr → List String
  | var _ x => [x]
  | newObject _ c => [c.node]
  | _ => []

/-- All names that occur in the expression. -/
def Expr.names (e : Expr) : List String := e.subtree.flatMap Expr.ownName

namespace Stmt

mutual

/-- All names that occur in the statement, in its expressions and declared types. -/
def names : Stmt → List String
  | varDecl _ d => d.ty.node.names
  | block _ body => namesAll body
  | ifThen _ c t => c.names ++ t.names
  | ifElse _ c t e => c.names ++ t.names ++ e.names
  | whileLoop _ c b => c.names ++ b.names
  | expr _ e => e.names
  | assign _ _ v => v.names
  | arrayAssign _ _ i v => i.names ++ v.names
  | ret _ none => []
  | ret _ (some v) => v.names

def namesAll : List Stmt → List String
  | [] => []
  | s :: ss => s.names ++ namesAll ss

end

theorem namesAll_eq_flatMap (ss : List Stmt) : namesAll ss = ss.flatMap names := by
  induction ss with
  | nil => rfl
  | cons s ss ih => rw [namesAll, List.flatMap_cons, ih]

end Stmt

def MethodDecl.names (d : MethodDecl) : List String :=
  d.returnTy.node.names ++ d.params.flatMap (·.ty.node.names) ++ Stmt.namesAll d.body

def ClassDecl.names (d : ClassDecl) : List String :=
  (d.superName.map (·.node)).toList ++ d.fields.flatMap (·.ty.node.names)
    ++ d.methods.flatMap MethodDecl.names

def Program.names (p : Program) : List String := p.classes.flatMap ClassDecl.names

/-- A warning for each import that is not used. -/
def Program.unusedImports (p : Program) : List Note :=
  let used := p.names
  p.imports.filterMap fun i =>
    if used.contains (lastSegment i.node) then none
    else some (.report (.unusedImport i.node) i.span)

end MiniJava
