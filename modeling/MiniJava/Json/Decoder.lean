import MiniJava.Json.Fault
import MiniJava.Json.Reader

/-!
# Decoding

A `Decoder α` turns a JSON value into an `α` or names the first fault in text order. It is given the
number of lists and objects that may still be opened; a text may nest them 127 deep.

**Records.** A record is an object with its fields in any order, or a list of its fields in the
order of declaration. A field of an object that the record does not know is skipped; what a skipped
value holds does not matter, not even its depth, as long as it can be read. Fields are put one by
one into a partial record (`Fields.put`), so a fault in an early member wins over a later one, and
only at the end is it asked which fields are missing (`Fields.finish`).

**Variants.** A variant is an object with its name as the only key, or just the name if it carries
nothing.
-/

namespace MiniJava.Json

/-- How deep lists and objects may be nested. -/
def maxDepth : Nat := 127

def Decoder (α : Type) : Type := (allowance : Nat) → Json → Except Fault α

namespace Decoder

def map {α β : Type} (f : α → β) (d : Decoder α) : Decoder β := fun n v => (d n v).map f

/-- Opens a list or an object. -/
def enter : Nat → Except Fault Nat
  | 0 => .error .malformed
  | n + 1 => .ok n

/-- Refuses what was not read to its end. -/
def ensure (whole : Bool) : Except Fault Unit := if whole then .ok () else .error .malformed

def string : Decoder String
  | _, .str (some s) => .ok s
  | _, v => .error (v.unwanted "a string")

def bool : Decoder Bool
  | _, .bool b => .ok b
  | _, v => .error (v.unwanted "a boolean")

/-- An integer between two bounds. -/
def integer (low high : Int) (wanted : String) : Decoder Int
  | _, .num n =>
    match n.value? with
    | some (.integer i) => if low ≤ i ∧ i ≤ high then .ok i else .error (.outOfRange i wanted)
    | _ => .error ((Json.num n).unwanted wanted)
  | _, v => .error (v.unwanted wanted)

def int32 : Decoder Int32 :=
  (integer Int32.minValue.toInt Int32.maxValue.toInt "i32").map Int32.ofInt

def uint32 : Decoder UInt32 := (integer 0 4294967295 "u32").map fun i => UInt32.ofNat i.toNat

def unit : Decoder Unit
  | _, .null => .ok ()
  | _, v => .error (v.unwanted "unit")

def option {α : Type} (d : Decoder α) : Decoder (Option α)
  | _, .null => .ok none
  | n, v => (d n v).map some

def list {α : Type} (d : Decoder α) : Decoder (List α)
  | n, .arr items whole => do
    let n ← enter n
    let values ← items.mapM (d n)
    ensure whole
    .ok values
  | _, v => .error (v.unwanted "a sequence")

/-- Takes the place of a decoder nested too deep. -/
def tooDeep {α : Type} : Decoder α := fun _ _ => .error .malformed

end Decoder

/-! ## Records -/

/-- How a record is written. -/
inductive Shape where
  | object
  | list
deriving DecidableEq

/-- A field of a record. -/
structure Field (α : Type) where
  name : String
  decode : Decoder α
  /-- Its value when the record does not have it. -/
  default : Option α := none
  /-- Its value when the record is an object that does not have it. -/
  ifMissing : Option α := none

namespace Field

def required {α : Type} (name : String) (decode : Decoder α) : Field α := { name, decode }

def withDefault {α : Type} (name : String) (decode : Decoder α) (default : α) : Field α :=
  { name, decode, default := some default }

/-- A field that may be missing from an object but not from a list. -/
def optional {α : Type} (name : String) (decode : Decoder α) : Field (Option α) :=
  { name, decode := decode.option, ifMissing := some none }

/-- The value of the field once all of the record has been read. -/
def finish {α : Type} (f : Field α) (shape : Shape) (fault : Fault) :
    Option α → Except Fault α
  | some a => .ok a
  | none =>
    match f.default, shape, f.ifMissing with
    | some a, _, _ => .ok a
    | none, .object, some a => .ok a
    | _, _, _ => .error fault

end Field

/-- The fields of a record in order of declaration. A partial record is a `σ`, a full one an `α`. -/
structure Fields (σ α : Type) where
  names : List String
  start : σ
  /-- Reads the value of the named field. -/
  put : σ → String → Decoder σ
  /-- Looks for missing fields, the first of which has the given place in the record. -/
  finish : Shape → (wanted : String) → (place : Nat) → σ → Except Fault α

namespace Fields

variable {σ α β : Type}

/-- What a list that is too short for a record of `count` fields is told. -/
def absence (shape : Shape) (wanted : String) (place : Nat) (name : String) : Fault :=
  match shape with
  | .object => .missing name
  | .list => .tooShort place wanted

/-- Puts a value into a field that must still be empty. -/
def fill (f : Field β) (old : Option β) : Decoder (Option β) := fun n v =>
  match old with
  | some _ => .error (.duplicate f.name)
  | none => (f.decode n v).map some

/-- The fields of a record with one field. -/
def last (f : Field β) : Fields (Option β) β where
  names := [f.name]
  start := none
  put old _ := fill f old
  finish shape wanted place old := f.finish shape (absence shape wanted place f.name) old

/-- One more field, in front. -/
def cons (f : Field β) (fs : Fields σ α) : Fields (Option β × σ) (β × α) where
  names := f.name :: fs.names
  start := (none, fs.start)
  put := fun (old, s) name n v =>
    if name == f.name then (fill f old n v).map fun b => (b, s)
    else (fs.put s name n v).map fun s => (old, s)
  finish shape wanted place := fun (old, s) => do
    let b ← f.finish shape (absence shape wanted place f.name) old
    let a ← fs.finish shape wanted (place + 1) s
    .ok (b, a)

/-- Reads the members of an object in text order. -/
def putMembers (fs : Fields σ α) (n : Nat) : σ → List (Option String × Json) → Except Fault σ
  | s, [] => .ok s
  | s, (some key, v) :: ms => do
    let s ← if fs.names.contains key then fs.put s key n v else .ok s
    putMembers fs n s ms
  | _, (none, _) :: _ => .error .malformed

/-- Reads the items of a list as the fields of those names. -/
def putItems (fs : Fields σ α) (n : Nat) : σ → List String → List Json → Except Fault σ
  | s, name :: names, v :: vs => do
    let s ← fs.put s name n v
    putItems fs n s names vs
  | s, _, _ => .ok s

end Fields

/-- A record, called `wanted` in messages. -/
def Decoder.record {σ α : Type} (wanted : String) (fs : Fields σ α) : Decoder α
  | n, .obj members whole => do
    let n ← enter n
    let s ← fs.putMembers n fs.start members
    ensure whole
    fs.finish .object wanted 0 s
  | n, .arr items whole => do
    let n ← enter n
    let s ← fs.putItems n fs.start fs.names items
    ensure (whole && items.length ≤ fs.names.length)
    fs.finish .list s!"{wanted} with {fs.names.length} elements" 0 s
  | _, v => .error (v.unwanted wanted)

/-! ## Variants -/

/-- What a variant carries. -/
inductive Payload (α : Type) where
  | unit (value : α)
  | value (decode : Decoder α)
  | record (decode : Decoder α)

namespace Payload

/-- The variant given by its name alone. -/
def bare {α : Type} : Payload α → Except Fault α
  | unit a => .ok a
  | value _ => .error (.bareVariant "newtype variant")
  | record _ => .error (.bareVariant "struct variant")

def decode {α : Type} : Payload α → Decoder α
  | unit a => Decoder.unit.map fun _ => a
  | value d | record d => d

end Payload

/-- One of the known variants. -/
def Decoder.variant {α : Type} (known : List String) (payload : String → Option (Payload α)) :
    Decoder α
  | _, .str (some name) =>
    match payload name with
    | some p => p.bare
    | none => .error (.unknownVariant name known)
  | n, .obj ((some name, v) :: more) whole => do
    let n ← enter n
    match payload name with
    | some p =>
      let a ← p.decode n v
      ensure (whole && more.isEmpty)
      .ok a
    | none => .error (.unknownVariant name known)
  | _, _ => .error .malformed

/-! ## Whole texts -/

/-- Decodes a value that stands on its own. -/
def Decoder.run {α : Type} (d : Decoder α) (v : Json) : Except Fault α := d maxDepth v

/-- Decodes a text: the value first, then nothing may follow it. -/
def Decoder.parse {α : Type} (d : Decoder α) (text : String) : Except Fault α := do
  let doc := Document.read text
  let a ← d.run doc.value
  ensure doc.whole
  .ok a

end MiniJava.Json
