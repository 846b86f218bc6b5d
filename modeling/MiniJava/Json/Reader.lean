import MiniJava.Json.Basic

/-!
# Reading JSON

`Document.read` reads a text into a tree. Reading never fails: where the text stops being JSON the
tree says so, and the rest of the text is not looked at. A document is whole when nothing but white
space follows its value.
-/

namespace MiniJava.Json

def isBlank (c : Char) : Bool := c == ' ' || c == '\n' || c == '\t' || c == '\r'

def skipBlank (cs : List Char) : List Char := cs.dropWhile isBlank

/-! ## Strings -/

/-- A part of a string: a character, or a 16-bit unit given by its number. -/
inductive Piece where
  | char (c : Char)
  | unit (n : Nat)

def hexDigit? (c : Char) : Option Nat :=
  if '0' ≤ c && c ≤ '9' then some (c.toNat - '0'.toNat)
  else if 'a' ≤ c && c ≤ 'f' then some (c.toNat - 'a'.toNat + 10)
  else if 'A' ≤ c && c ≤ 'F' then some (c.toNat - 'A'.toNat + 10)
  else none

def hexUnit? (a b c d : Char) : Option Nat := do
  some (4096 * (← hexDigit? a) + 256 * (← hexDigit? b) + 16 * (← hexDigit? c) + (← hexDigit? d))

/-- The character that a backslash and `c` stand for. -/
def escaped? (c : Char) : Option Char :=
  match c with
  | '"' => some '"'
  | '\\' => some '\\'
  | '/' => some '/'
  | 'b' => some '\x08'
  | 'f' => some '\x0c'
  | 'n' => some '\n'
  | 'r' => some '\r'
  | 't' => some '\t'
  | _ => none

/-- The parts of a string up to its closing quote, and the text after it. -/
def readPieces : List Char → Option (List Piece × List Char)
  | [] => none
  | '"' :: cs => some ([], cs)
  | '\\' :: 'u' :: a :: b :: c :: d :: cs => do
    let n ← hexUnit? a b c d
    let (ps, rest) ← readPieces cs
    some (.unit n :: ps, rest)
  | '\\' :: c :: cs => do
    let c ← escaped? c
    let (ps, rest) ← readPieces cs
    some (.char c :: ps, rest)
  | c :: cs =>
    if c.toNat < 32 then none
    else do
      let (ps, rest) ← readPieces cs
      some (.char c :: ps, rest)

def isHighSurrogate (n : Nat) : Bool := 0xD800 ≤ n && n < 0xDC00

def isLowSurrogate (n : Nat) : Bool := 0xDC00 ≤ n && n < 0xE000

/-- The characters of a string. Two units of a surrogate pair make one character, and half a pair
makes none. -/
def assemble : List Piece → Option (List Char)
  | [] => some []
  | .char c :: ps => (assemble ps).map (c :: ·)
  | .unit n :: .unit m :: ps =>
    if isHighSurrogate n then
      if isLowSurrogate m then
        (assemble ps).map (Char.ofNat (0x10000 + 0x400 * (n - 0xD800) + (m - 0xDC00)) :: ·)
      else none
    else if isLowSurrogate n then none
    else (assemble (.unit m :: ps)).map (Char.ofNat n :: ·)
  | .unit n :: ps =>
    if isHighSurrogate n || isLowSurrogate n then none
    else (assemble ps).map (Char.ofNat n :: ·)

/-- The string behind an opening quote, and the text after it. -/
def readString (cs : List Char) : Option (Option String × List Char) :=
  (readPieces cs).map fun (ps, rest) => ((assemble ps).map String.ofList, rest)

/-! ## Values -/

/-- A number, or else nothing that can be read. -/
def readNumber (cs : List Char) : Json × Option (List Char) :=
  match Number.read? cs with
  | some (n, rest) => (num n, some rest)
  | none => (broken, none)

mutual

/-- The value at the head of the text, and the text after it unless reading stopped. A list or an
object takes two steps, one for its bracket and one for what follows, so `fuel` larger than twice
the length of the text suffices. -/
def readValue : (fuel : Nat) → List Char → Json × Option (List Char)
  | 0, _ => (broken, none)
  | fuel + 1, cs =>
    match skipBlank cs with
    | 'n' :: 'u' :: 'l' :: 'l' :: rest => (null, some rest)
    | 't' :: 'r' :: 'u' :: 'e' :: rest => (bool true, some rest)
    | 'f' :: 'a' :: 'l' :: 's' :: 'e' :: rest => (bool false, some rest)
    | '"' :: rest =>
      match readString rest with
      | some (s, rest) => (str s, some rest)
      | none => (broken, none)
    | '[' :: rest =>
      match skipBlank rest with
      | ']' :: rest => (arr [] true, some rest)
      | rest =>
        let (items, after) := readItems fuel rest
        (arr items after.isSome, after)
    | '\x7b' :: rest =>
      match skipBlank rest with
      | '\x7d' :: rest => (obj [] true, some rest)
      | rest =>
        let (members, after) := readMembers fuel rest
        (obj members after.isSome, after)
    | cs => readNumber cs

/-- The items of a list from one of them on, up to the closing bracket. -/
def readItems : (fuel : Nat) → List Char → List Json × Option (List Char)
  | 0, _ => ([], none)
  | fuel + 1, cs =>
    match readValue fuel cs with
    | (v, none) => ([v], none)
    | (v, some rest) =>
      match skipBlank rest with
      | ',' :: rest =>
        let (vs, after) := readItems fuel rest
        (v :: vs, after)
      | ']' :: rest => ([v], some rest)
      | _ => ([v], none)

/-- The members of an object from one of them on, up to the closing brace. Reading stops where a key
should stand and there is no string. -/
def readMembers : (fuel : Nat) → List Char → List (Option String × Json) × Option (List Char)
  | 0, _ => ([], none)
  | fuel + 1, cs =>
    match skipBlank cs with
    | '"' :: rest =>
      match readString rest with
      | none => ([], none)
      | some (key, rest) =>
        match skipBlank rest with
        | ':' :: rest =>
          match readValue fuel rest with
          | (v, none) => ([(key, v)], none)
          | (v, some rest) =>
            match skipBlank rest with
            | ',' :: rest =>
              let (ms, after) := readMembers fuel rest
              ((key, v) :: ms, after)
            | '\x7d' :: rest => ([(key, v)], some rest)
            | _ => ([(key, v)], none)
        | _ => ([(key, broken)], none)
    | _ => ([], none)

end

/-- A text as read. -/
structure Document where
  value : Json
  /-- The value was read to its end and nothing but white space follows. -/
  whole : Bool

def Document.ofChars (cs : List Char) : Document :=
  match readValue (2 * cs.length + 1) cs with
  | (value, some rest) => { value, whole := (skipBlank rest).isEmpty }
  | (value, none) => { value, whole := false }

def Document.read (s : String) : Document := Document.ofChars s.toList

end MiniJava.Json
