import MiniJava.Syntax.Basic

/-!
# Three-address code

Instructions with at most one operator each. Operands are literals, variables (locals, parameters
and temporaries), items of an array held by a variable, and bare class names. Every operand and
instruction knows its type, and both print with it: `tmp0.i32 :=.i32 $1.a.i32 +.i32 1.i32`.
-/

namespace MiniJava.Ir

inductive Operand where
  /-- An integer; `true` and `false` are one and zero. -/
  | literal (value : Int32) (ty : Ty)
  /-- A variable. A parameter shows its ordinal, except where the program returns it. -/
  | var (name : String) (ty : Ty) (param : Option Nat)
  /-- An item of the array that a variable holds; `ty` is the type of the item. -/
  | item (name : String) (index : Operand) (ty : Ty) (param : Option Nat)
  /-- A class, as the target of a static call. -/
  | cls (name : String)
deriving DecidableEq

namespace Operand

/-- A variable without an ordinal. -/
def plain (name : String) (ty : Ty) : Operand := var name ty none

/-- The object that a method of the class runs on. -/
def this (className : String) : Operand := plain "this" (.cls className)

def ty : Operand → Ty
  | literal _ t | var _ t _ | item _ _ t _ => t
  | cls name => .cls name

/-- The name of the variable. -/
def name? : Operand → Option String
  | var x _ _ | item x _ _ _ => some x
  | literal .. | cls _ => none

def isThis : Operand → Bool
  | var x _ _ => x == "this"
  | _ => false

end Operand

inductive CallKind where
  | virtual
  | static
  | special
deriving DecidableEq

def CallKind.mnemonic : CallKind → String
  | virtual => "invokevirtual"
  | static => "invokestatic"
  | special => "invokespecial"

inductive Instr where
  /-- Stores what `rhs` gives into a variable or an item. -/
  | assign (dest : Operand) (ty : Ty) (rhs : Instr)
  /-- An operand as a value. -/
  | value (operand : Operand)
  | not (operand : Operand) (ty : Ty)
  | binary (op : BinOp) (left right : Operand) (ty : Ty)
  /-- A call; `params` are the declared parameter types if the signature is known. -/
  | call (kind : CallKind) (target : Operand) (method : String) (args : List Operand)
      (params : Option (List Ty)) (ty : Ty)
  | newObject (className : String)
  | newArray (size : Operand) (ty : Ty)
  | length (array : Operand)
  /-- Reads a field of `this`. -/
  | getField (field : Operand) (ty : Ty)
  /-- Writes a field of `this`. -/
  | putField (field value : Operand)
  | goto (label : String)
  /-- Jumps if the condition is true. -/
  | branch (cond : Operand) (label : String)
  | label (name : String)
  | ret (ty : Ty) (operand : Option Operand)
deriving DecidableEq

namespace Instr

/-- The type of the value that the instruction gives, `void` if none. -/
def ty : Instr → Ty
  | assign _ t _ | not _ t | binary _ _ _ t | call _ _ _ _ _ t | newArray _ t | getField _ t
  | ret t _ => t
  | value o => o.ty
  | newObject c => .cls c
  | length _ => .int
  | putField .. | goto _ | branch .. | label _ => .void

def isLabel : Instr → Bool
  | label _ => true
  | _ => false

end Instr

/-! ## Text -/

/-- The mark of a parameter. -/
def paramMark : Option Nat → String
  | some n => s!"${n}."
  | none => ""

def Operand.text : Operand → String
  | literal v t => toString v.toInt ++ t.suffix
  | var x t p => paramMark p ++ x ++ t.suffix
  | item x i t p => paramMark p ++ x ++ "[" ++ i.text ++ "]" ++ t.suffix
  | cls c => c

def Instr.text : Instr → String
  | assign d t rhs => s!"{d.text} :={t.suffix} {rhs.text}"
  | value o => o.text
  | not o t => s!"!{t.suffix} {o.text}"
  | binary op l r t => s!"{l.text} {op.symbol}{t.suffix} {r.text}"
  | call k target m args _ t =>
    let args := String.join (args.map fun a => ", " ++ a.text)
    s!"{k.mnemonic}({target.text}, \"{m}\"{args}){t.suffix}"
  | newObject c => s!"new({c}).{c}"
  | newArray size t => s!"new(array, {size.text}){t.suffix}"
  | length a => s!"arraylength({a.text}).i32"
  | getField f t => s!"getfield(this, {f.text}){t.suffix}"
  | putField f v => s!"putfield(this, {f.text}, {v.text}).V"
  | goto l => s!"goto {l}"
  | branch c l => s!"if ({c.text}) goto {l}"
  | label l => s!"{l}:"
  | ret t (some o) => s!"ret{t.suffix} {o.text}"
  | ret t none => s!"ret{t.suffix}"

end MiniJava.Ir
