import MiniJava.Decimal.Double
import MiniJava.Json.Basic
import MiniJava.Text.Quoted

/-!
# What is wrong with a text

A text is refused either because it is malformed or because a value in it is not what is wanted in
its place. `Fault` lists the causes and `Fault.message?` words them; a malformed text has no
message.
-/

namespace MiniJava.Json

/-- What stands where something else is wanted. -/
inductive Found where
  | null
  | bool (value : Bool)
  | integer (value : Int)
  /-- A number with a fraction or an exponent, or beyond 64 bits, by its shortest digits. -/
  | double (digits : String)
  | text (value : String)
  | list
  | object
deriving DecidableEq

def Found.words : Found → String
  | null => "null"
  | bool b => s!"boolean `{b}`"
  | integer i => s!"integer `{i}`"
  | double digits => s!"floating point `{digits}`"
  | text s => "string " ++ Text.quoted s
  | list => "sequence"
  | object => "map"

inductive Fault where
  /-- Not JSON, nested too deep, or a number beyond all doubles. -/
  | malformed
  | wrongKind (found : Found) (wanted : String)
  | outOfRange (value : Int) (wanted : String)
  | missing (field : String)
  | duplicate (field : String)
  /-- A list in place of a record, too short for its fields. -/
  | tooShort (length : Nat) (wanted : String)
  | unknownVariant (name : String) (known : List String)
  /-- The bare name of a variant that carries something. -/
  | bareVariant (wanted : String)
deriving DecidableEq

def Fault.message? : Fault → Option String
  | malformed => none
  | wrongKind found wanted => some s!"invalid type: {found.words}, expected {wanted}"
  | outOfRange value wanted => some s!"invalid value: integer `{value}`, expected {wanted}"
  | missing field => some s!"missing field `{field}`"
  | duplicate field => some s!"duplicate field `{field}`"
  | tooShort length wanted => some s!"invalid length {length}, expected {wanted}"
  | unknownVariant name known =>
    let known := String.intercalate ", " (known.map fun k => s!"`{k}`")
    some s!"unknown variant `{name}`, expected one of {known}"
  | bareVariant wanted => some s!"invalid type: unit variant, expected {wanted}"

/-- What the value is, for a message. Nothing for what could not be read. -/
def found? : Json → Option Found
  | .null => some .null
  | .bool b => some (.bool b)
  | .num n =>
    n.value?.map fun
      | .integer i => .integer i
      | .double f => .double (Decimal.Double.text f)
  | .str s => s.map .text
  | .arr .. => some .list
  | .obj .. => some .object
  | .broken => none

/-- The fault of a value that is not the wanted kind. -/
def unwanted (v : Json) (wanted : String) : Fault :=
  match v.found? with
  | some found => .wrongKind found wanted
  | none => .malformed

end MiniJava.Json
