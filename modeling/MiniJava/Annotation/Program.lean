import MiniJava.Annotation.Imports
import MiniJava.Annotation.Stmt

/-!
# Annotating programs

`Program.annotate` annotates every method of every class against a symbol table and adds the
warnings about imports. It always gives a result; `Program.check` refuses one with errors.
-/

namespace MiniJava

/-- A method of a class with the given symbols. -/
def MethodDecl.annotate (table : SymbolTable) (cls : ClassSymbols) (d : MethodDecl) :
    List Note :=
  match cls.method? d.name.node with
  | none => [.report (.missingMethod d.name.node cls.name) d.name.span]
  | some method =>
    let body := Stmt.annotateAll { table, cls, method, isStatic := d.isStatic } d.body
    body.notes ++
      if d.returnTy.node != .void && !Stmt.lastReturns d.body then
        [.report (.missingReturn d.name.node d.returnTy.node) d.name.span]
      else []

def ClassDecl.annotate (table : SymbolTable) (d : ClassDecl) : List Note :=
  match table.class? d.name.node with
  | none => [.report (.missingClass d.name.node) d.name.span]
  | some cls => d.methods.flatMap (MethodDecl.annotate table cls)

namespace Program

/-- All notes on a program, in order. -/
def notes (p : Program) (table : SymbolTable) : List Note :=
  p.classes.flatMap (ClassDecl.annotate table) ++ p.unusedImports

def annotate (p : Program) (table : SymbolTable) : Annotation := .ofNotes (p.notes table)

/-- The annotation of a program without errors, or else all diagnostics. -/
def check (p : Program) (table : SymbolTable) : Except (List Diagnostic) Annotation :=
  (p.annotate table).accepted

end Program

end MiniJava
