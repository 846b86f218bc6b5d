/-!
# Types

The types of the language. That the type of something is not known is never a type: functions that
may fail to find one return an `Option Ty`.
-/

namespace MiniJava

inductive Ty where
  | int
  | bool
  /-- Only reachable through the argument of `main`. -/
  | str
  | void
  /-- A class of the program or an imported one, by its bare name. -/
  | cls (name : String)
  | array (element : Ty)
deriving DecidableEq, Inhabited

namespace Ty

def isArray : Ty → Bool
  | array _ => true
  | _ => false

/-- The type of the elements of an array. -/
def element? : Ty → Option Ty
  | array e => some e
  | _ => none

/-- The values that the machine keeps as integers. -/
def isIntLike : Ty → Bool
  | int | bool => true
  | _ => false

/-- The spelling in source programs, used in diagnostics. -/
def text : Ty → String
  | int => "int"
  | bool => "boolean"
  | str => "String"
  | void => "void"
  | cls name => name
  | array e => e.text ++ "[]"

/-- The suffix that operands and instructions of the three-address code carry. -/
def suffix : Ty → String
  | int => ".i32"
  | bool => ".bool"
  | str => ".String"
  | void => ".V"
  | cls name => "." ++ name
  | array e => ".array" ++ e.suffix

end Ty

end MiniJava
