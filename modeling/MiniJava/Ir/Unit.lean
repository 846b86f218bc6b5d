import MiniJava.ImportPath
import MiniJava.Ir.Basic
import MiniJava.Ir.Register

/-!
# Methods and classes in three-address code

A `Method` is a list of instructions with its declaration. Its register table is made when it is
first asked for and is then frozen: later changes to the method do not reach it.
-/

namespace MiniJava.Ir

inductive Access where
  | pub
  | priv
  | package
deriving DecidableEq

/-- The keyword with a blank behind it, or nothing. -/
def Access.keyword : Access → String
  | .pub => "public "
  | .priv => "private "
  | .package => ""

structure Field where
  name : String
  ty : Ty
  access : Access := .package
deriving DecidableEq

structure Method where
  name : String
  className : String
  access : Access := .pub
  isStatic : Bool := false
  isConstructor : Bool := false
  params : List Symbol := []
  locals : List Symbol := []
  returnTy : Ty
  code : List Instr := []
  /-- The register table, once it has been asked for. -/
  frozen : Option RegisterTable := none

/-- The variable that an instruction assigns to; to store an item is to use an array. -/
def Instr.assigned? : Instr → Option Symbol
  | .assign (.var x _ _) t _ => some ⟨x, t⟩
  | .assign (.item x _ _ _) t _ => some ⟨x, .array t⟩
  | _ => none

namespace Method

/-- The constructor without parameters, which only runs the one of the superclass. -/
def defaultConstructor (className : String) : Method where
  name := "<init>"
  className := className
  isConstructor := true
  returnTy := .void
  code := [.call .special (.this className) "<init>" [] (some []) .void, .ret .void none]

/-- All variables in order of declaration, with repetitions: `this` unless the method is static, the
parameters, the locals and what its instructions assign to. -/
def declarations (m : Method) : List Symbol :=
  (if m.isStatic then [] else [⟨"this", .cls m.className⟩])
    ++ m.params ++ m.locals ++ m.code.filterMap Instr.assigned?

def registers (m : Method) : RegisterTable := m.frozen.getD (.ofDeclarations m.declarations)

/-- The method after its register table has been asked for. -/
def freeze (m : Method) : Method := { m with frozen := some m.registers }

/-- The methods are equal, frozen tables included. -/
def same (m n : Method) : Bool :=
  m.name == n.name && m.className == n.className && m.access == n.access
    && m.isStatic == n.isStatic && m.isConstructor == n.isConstructor && m.params == n.params
    && m.locals == n.locals && m.returnTy == n.returnTy && m.code == n.code
    && match m.frozen, n.frozen with
      | some t, some u => t.same u
      | none, none => true
      | _, _ => false

end Method

/-- A class in three-address code. -/
structure ClassUnit where
  /-- Dotted paths. -/
  imports : List String := []
  name : String
  superName : Option String := none
  fields : List Field := []
  methods : List Method := []

namespace ClassUnit

def method? (u : ClassUnit) (name : String) : Option Method := u.methods.find? (·.name == name)

/-- The full path of an imported class. -/
def importPath (u : ClassUnit) (name : String) : Option String := findImport u.imports name

/-- The unit after all register tables have been asked for. -/
def freeze (u : ClassUnit) : ClassUnit := { u with methods := u.methods.map Method.freeze }

end ClassUnit

/-! ## Text -/

/-- An instruction on a line of its own. Labels stand out to the left. -/
def Instr.line (i : Instr) : String :=
  if i.isLabel then s!"  {i.text}\n" else s!"    {i.text};\n"

def Method.heading (m : Method) : String :=
  if m.isConstructor then s!".construct {m.className}().V \x7b\n"
  else
    let params := String.intercalate ", " (m.params.map fun p => p.name ++ p.ty.suffix)
    let static := if m.isStatic then "static " else ""
    s!".method {m.access.keyword}{static}{m.name}({params}){m.returnTy.suffix} \x7b\n"

def Method.text (m : Method) : String :=
  m.heading ++ String.join (m.code.map Instr.line) ++ "\x7d\n"

def Field.line (f : Field) : String := s!".field {f.access.keyword}{f.name}{f.ty.suffix};\n"

def ClassUnit.text (u : ClassUnit) : String :=
  let imports := String.join (u.imports.map fun path => s!"import {path};\n")
  let gap := if u.imports.isEmpty then "" else "\n"
  let sup := (u.superName.map (" extends " ++ ·)).getD ""
  let fields := String.join (u.fields.map Field.line)
  let methods := String.join (u.methods.map fun m => "\n" ++ m.text)
  s!"{imports}{gap}{u.name}{sup} \x7b\n{fields}{methods}\x7d\n"

end MiniJava.Ir
