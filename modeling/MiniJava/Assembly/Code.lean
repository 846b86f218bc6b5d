import MiniJava.Assembly.Descriptor

/-!
# Stack-machine code

The instructions of the machine and their text. The machine has an operand stack, numbered
registers, and labels to jump to.
-/

namespace MiniJava.Assembly

open Ir

inductive Asm where
  /-- Pushes a constant. -/
  | ldc (value : Int32)
  | iconst0
  | iconst1
  /-- Pushes a register that holds an integer or a reference. -/
  | iload (register : UInt16)
  | aload (register : UInt16)
  /-- Pushes `this`. -/
  | aload0
  | istore (register : UInt16)
  | astore (register : UInt16)
  /-- Pushes or stores an item of an array. -/
  | iaload
  | aaload
  | iastore
  | aastore
  | iadd
  | isub
  | imul
  | idiv
  | iand
  | ixor
  | pop
  | newObject (path : String)
  | newIntArray
  | newRefArray (itemName : String)
  | arraylength
  | getfield (owner field : String) (ty : Descriptor)
  | putfield (owner field : String) (ty : Descriptor)
  | invoke (kind : CallKind) (owner method : String) (params : List Descriptor)
      (result : Descriptor)
  | goto (label : String)
  /-- Jumps if the popped integer is not zero. -/
  | ifne (label : String)
  /-- Jumps if the first of two popped integers is less than the second. -/
  | ifIcmplt (label : String)
  | label (name : String)
  | ireturn
  | areturn
  | ret
deriving DecidableEq

namespace Asm

def text : Asm → String
  | ldc v => s!"ldc {v.toInt}"
  | iconst0 => "iconst_0"
  | iconst1 => "iconst_1"
  | iload r => s!"iload {r.toNat}"
  | aload r => s!"aload {r.toNat}"
  | aload0 => "aload_0"
  | istore r => s!"istore {r.toNat}"
  | astore r => s!"astore {r.toNat}"
  | iaload => "iaload"
  | aaload => "aaload"
  | iastore => "iastore"
  | aastore => "aastore"
  | iadd => "iadd"
  | isub => "isub"
  | imul => "imul"
  | idiv => "idiv"
  | iand => "iand"
  | ixor => "ixor"
  | pop => "pop"
  | newObject path => s!"new {path}"
  | newIntArray => "newarray int"
  | newRefArray name => s!"anewarray {name}"
  | arraylength => "arraylength"
  | getfield owner field ty => s!"getfield {owner}/{field} {ty.text}"
  | putfield owner field ty => s!"putfield {owner}/{field} {ty.text}"
  | invoke kind owner method params result =>
    s!"{kind.mnemonic} {owner}/{method}({Descriptor.texts params}){result.text}"
  | goto l => s!"goto {l}"
  | ifne l => s!"ifne {l}"
  | ifIcmplt l => s!"if_icmplt {l}"
  | label l => s!"{l}:"
  | ireturn => "ireturn"
  | areturn => "areturn"
  | ret => "return"

/-- The instruction on a line of its own. A line that ends in a colon is not indented. -/
def line (a : Asm) : String :=
  let s := a.text
  if s.toList.getLast? == some ':' then s ++ "\n" else "   " ++ s ++ "\n"

/-- Loads a variable of the given type. -/
def load (ty : Ty) (r : UInt16) : Asm := if ty.isIntLike then iload r else aload r

def store (ty : Ty) (r : UInt16) : Asm := if ty.isIntLike then istore r else astore r

/-- Loads an item of the given type. -/
def loadItem (ty : Ty) : Asm := if ty.isIntLike then iaload else aaload

def storeItem (ty : Ty) : Asm := if ty.isIntLike then iastore else aastore

def returnOf (ty : Ty) : Asm := if ty.isIntLike then ireturn else areturn

end Asm

end MiniJava.Assembly
