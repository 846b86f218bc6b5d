import MiniJava.Assembly.Code

/-!
# Listings

The assembly text of a class: its name, superclass and fields, then its methods, each with a heading
and an end around its code. The code comes in blocks, one for each instruction of the three-address
code.
-/

namespace MiniJava.Assembly

open Ir

/-- The numbers that every method is headed with. They are not computed from its code. -/
structure Limits where
  stack : UInt32 := 99
  locals : UInt32 := 99
deriving DecidableEq

/-- A part of the text of a class: the heading of a method, the code of one instruction, or the end
of a method. -/
inductive Piece where
  | heading (method : Method)
  | block (instr : Instr) (code : List Asm)
  | ending

def heading (u : ClassUnit) (limits : Limits) (m : Method) : String :=
  if m.isConstructor then ";default constructor\n.method public <init>()V\n"
  else
    let static := if m.isStatic then "static " else ""
    let params := Descriptor.texts (m.params.map fun p => u.descriptor p.ty)
    let result := (u.descriptor m.returnTy).text
    s!".method {m.access.keyword}{static}{m.name}({params}){result}\n"
      ++ s!"   .limit stack {limits.stack.toNat}\n   .limit locals {limits.locals.toNat}\n"

def Piece.text (u : ClassUnit) (limits : Limits) : Piece → String
  | heading m => "\n" ++ Assembly.heading u limits m
  | block _ code => String.join (code.map Asm.line)
  | ending => ".end method\n"

def fieldLine (u : ClassUnit) (f : Field) : String :=
  s!".field {f.access.keyword}{f.name} {(u.descriptor f.ty).text}\n"

/-- The text of a class whose methods have the given code. -/
def classText (u : ClassUnit) (limits : Limits) (pieces : List Piece) : String :=
  let fields := String.join (u.fields.map (fieldLine u))
  let gap := if u.fields.isEmpty then "" else "\n"
  s!".class public {u.name}\n.super {u.superPath}\n{gap}{fields}"
    ++ String.join (pieces.map (Piece.text u limits))

end MiniJava.Assembly
