import MiniJava.Symbols.Basic

/-!
# Scopes

Where a method body is looked at: the symbol table, the symbols of the class and of the method, and
whether the method is declared static. Both the annotator and the lowering look names up here.
-/

namespace MiniJava

structure Scope where
  table : SymbolTable
  cls : ClassSymbols
  method : MethodSymbols
  isStatic : Bool

namespace Scope

/-- What a variable name stands for. -/
def resolve (sc : Scope) (name : String) : Option Binding := sc.cls.resolve sc.method name

/-- The name may stand bare for a class. -/
def isClassName (sc : Scope) (name : String) : Bool := sc.table.isClassName sc.cls name

/-- The type of `this`. -/
def thisTy (sc : Scope) : Ty := .cls sc.cls.name

/-- A value of type `source` may be stored where a `target` is wanted: the types are equal, or the
class being compiled is stored as its superclass, or both are imported classes, about which nothing
is known. -/
def assignable (sc : Scope) (source target : Ty) : Bool :=
  source == target ||
    match source, target with
    | .cls sub, .cls sup =>
      (sc.cls.name == sub && sc.cls.superName == some sup)
        || (sc.table.isImported sub && sc.table.isImported sup)
    | _, _ => false

end Scope

end MiniJava
