import MiniJava.ImportPath
import MiniJava.Ty

/-!
# Symbol tables

What is declared, by name: for each class its superclass, fields and methods, for each method its
return type, parameters and locals. Names are looked up by first match, and inside a method a local
hides a parameter, which hides a field (`ClassSymbols.resolve`).
-/

namespace MiniJava

/-- A named and typed field, parameter or local. -/
structure Symbol where
  name : String
  ty : Ty
deriving DecidableEq

structure MethodSymbols where
  name : String
  returnTy : Ty
  params : List Symbol := []
  locals : List Symbol := []
  isPublic : Bool := true
  isStatic : Bool := false
deriving DecidableEq

structure ClassSymbols where
  name : String
  superName : Option String := none
  fields : List Symbol := []
  methods : List MethodSymbols := []
deriving DecidableEq

structure SymbolTable where
  /-- Dotted paths in declaration order. -/
  imports : List String := []
  classes : List ClassSymbols := []
deriving DecidableEq

/-- What a variable name stands for inside a method. -/
inductive Binding where
  | loc (symbol : Symbol)
  /-- Parameters are counted from one. -/
  | param (ordinal : Nat) (symbol : Symbol)
  | field (symbol : Symbol)
deriving DecidableEq

namespace Binding

def symbol : Binding → Symbol
  | loc s | param _ s | field s => s

def ty (b : Binding) : Ty := b.symbol.ty

def isField : Binding → Bool
  | field _ => true
  | _ => false

end Binding

namespace MethodSymbols

def withParam (m : MethodSymbols) (name : String) (ty : Ty) : MethodSymbols :=
  { m with params := m.params ++ [⟨name, ty⟩] }

def withLocal (m : MethodSymbols) (name : String) (ty : Ty) : MethodSymbols :=
  { m with locals := m.locals ++ [⟨name, ty⟩] }

def withStatic (m : MethodSymbols) (isStatic : Bool) : MethodSymbols := { m with isStatic }

/-- The ordinal of the first parameter of that name, counted from one. -/
def paramOrdinal (m : MethodSymbols) (name : String) : Option Nat :=
  (m.params.findIdx? (·.name == name)).map (· + 1)

end MethodSymbols

namespace ClassSymbols

def withSuper (c : ClassSymbols) (name : String) : ClassSymbols :=
  { c with superName := some name }

def withField (c : ClassSymbols) (name : String) (ty : Ty) : ClassSymbols :=
  { c with fields := c.fields ++ [⟨name, ty⟩] }

def withMethod (c : ClassSymbols) (m : MethodSymbols) : ClassSymbols :=
  { c with methods := c.methods ++ [m] }

/-- Applies `f` to the method declared last, if there is one. -/
def mapLastMethod (f : MethodSymbols → MethodSymbols) (c : ClassSymbols) : ClassSymbols :=
  { c with methods := c.methods.modify (c.methods.length - 1) f }

def method? (c : ClassSymbols) (name : String) : Option MethodSymbols :=
  c.methods.find? (·.name == name)

def field? (c : ClassSymbols) (name : String) : Option Symbol :=
  c.fields.find? (·.name == name)

/-- The first parameter of that name with its ordinal, when the first of `params` has ordinal
`n`. -/
def findParam (name : String) : List Symbol → Nat → Option Binding
  | [], _ => none
  | p :: ps, n => if p.name == name then some (.param n p) else findParam name ps (n + 1)

/-- What `name` stands for in the method: a local before a parameter before a field. -/
def resolve (c : ClassSymbols) (m : MethodSymbols) (name : String) : Option Binding :=
  ((m.locals.find? (·.name == name)).map .loc)
    <|> findParam name m.params 1
    <|> (c.field? name).map .field

end ClassSymbols

namespace SymbolTable

def withImport (t : SymbolTable) (path : String) : SymbolTable :=
  { t with imports := t.imports ++ [path] }

def withClass (t : SymbolTable) (c : ClassSymbols) : SymbolTable :=
  { t with classes := t.classes ++ [c] }

/-- Applies `f` to the class declared last, if there is one. -/
def mapLastClass (f : ClassSymbols → ClassSymbols) (t : SymbolTable) : SymbolTable :=
  { t with classes := t.classes.modify (t.classes.length - 1) f }

def class? (t : SymbolTable) (name : String) : Option ClassSymbols :=
  t.classes.find? (·.name == name)

/-- The full path of the imported class `name`. -/
def importPath (t : SymbolTable) (name : String) : Option String :=
  findImport t.imports name

def isImported (t : SymbolTable) (name : String) : Bool :=
  (t.importPath name).isSome

/-- Inside class `c` the name stands for a class: an imported one, `c` or its superclass. -/
def isClassName (t : SymbolTable) (c : ClassSymbols) (name : String) : Bool :=
  t.isImported name || c.name == name || c.superName == some name

end SymbolTable

end MiniJava
