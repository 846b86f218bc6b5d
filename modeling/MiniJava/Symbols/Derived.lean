import MiniJava.Symbols.Basic
import MiniJava.Syntax.Basic

/-!
# The table of a program

`SymbolTable.ofProgram` reads the symbol table off the declarations. The locals of a method are the
variables declared anywhere in its body, nested statements included, in source order.
-/

namespace MiniJava

def VarDecl.symbol (d : VarDecl) : Symbol := ⟨d.name.node, d.ty.node⟩

namespace Stmt

mutual

/-- The variables declared in a statement or in one nested in it, in source order. -/
def declared : Stmt → List Symbol
  | varDecl _ d => [d.symbol]
  | block _ body => declaredAll body
  | ifThen _ _ t => t.declared
  | ifElse _ _ t e => t.declared ++ e.declared
  | whileLoop _ _ b => b.declared
  | expr .. | assign .. | arrayAssign .. | ret .. => []

def declaredAll : List Stmt → List Symbol
  | [] => []
  | s :: ss => s.declared ++ declaredAll ss

end

end Stmt

def MethodDecl.symbols (d : MethodDecl) : MethodSymbols where
  name := d.name.node
  returnTy := d.returnTy.node
  params := d.params.map VarDecl.symbol
  locals := Stmt.declaredAll d.body
  isPublic := d.isPublic
  isStatic := d.isStatic

def ClassDecl.symbols (d : ClassDecl) : ClassSymbols where
  name := d.name.node
  superName := d.superName.map (·.node)
  fields := d.fields.map VarDecl.symbol
  methods := d.methods.map MethodDecl.symbols

/-- The table that the declarations of the program give. -/
def SymbolTable.ofProgram (p : Program) : SymbolTable where
  imports := p.imports.map (·.node)
  classes := p.classes.map ClassDecl.symbols

end MiniJava
