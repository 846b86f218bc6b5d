import MiniJava.Ir.Unit

/-!
# Descriptors

How the assembly names classes and types. An imported class goes by its full path with slashes, any
other class by its bare name. The written form of a descriptor tells where it ends, so the
descriptors of several parameters are written one after the other.
-/

namespace MiniJava.Assembly

open Ir

inductive Descriptor where
  | int
  | bool
  | void
  | object (path : String)
  | array (element : Descriptor)
deriving DecidableEq

def Descriptor.text : Descriptor → String
  | int => "I"
  | bool => "Z"
  | void => "V"
  | object path => s!"L{path};"
  | array e => "[" ++ e.text

/-- The descriptors of parameters. -/
def Descriptor.texts (ds : List Descriptor) : String := String.join (ds.map Descriptor.text)

/-- A dotted path with slashes in place of the dots. -/
def slashed (path : String) : String :=
  String.ofList (path.toList.map fun c => if c == '.' then '/' else c)

end MiniJava.Assembly

namespace MiniJava.Ir.ClassUnit

open MiniJava.Assembly

/-- The name of a class in the assembly of a unit. The class of the unit itself is never taken for
an imported one. -/
def classPath (u : ClassUnit) (name : String) : String :=
  match u.importPath name with
  | some path => if name == u.name then name else slashed path
  | none => name

def superPath (u : ClassUnit) : String :=
  match u.superName with
  | some name => u.classPath name
  | none => "java/lang/Object"

def descriptor (u : ClassUnit) : Ty → Descriptor
  | .int => .int
  | .bool => .bool
  | .str => .object "java/lang/String"
  | .void => .void
  | .cls name => .object (u.classPath name)
  | .array e => .array (u.descriptor e)

/-- The name of the items in the instruction that makes an array of references. -/
def itemName (u : ClassUnit) : Ty → String
  | .cls name => u.classPath name
  | ty => (u.descriptor ty).text

end MiniJava.Ir.ClassUnit
