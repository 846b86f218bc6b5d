import MiniJava.Json.Basic

/-!
# Writing JSON

`Json.render` writes a whole value without white space. In strings the quote, the backslash and
control characters are escaped, and everything else stands as it is.
-/

namespace MiniJava.Json

def hexDigit (n : Nat) : Char :=
  if n < 10 then Char.ofNat ('0'.toNat + n) else Char.ofNat ('a'.toNat + (n - 10))

/-- The letter that stands for the character behind a backslash. -/
def escapeLetter? (c : Char) : Option Char :=
  match c with
  | '"' => some '"'
  | '\\' => some '\\'
  | '\x08' => some 'b'
  | '\x0c' => some 'f'
  | '\n' => some 'n'
  | '\r' => some 'r'
  | '\t' => some 't'
  | _ => none

/-- A character inside a string. -/
def escape (c : Char) : List Char :=
  match escapeLetter? c with
  | some letter => ['\\', letter]
  | none =>
    if c.toNat < 32 then ['\\', 'u', '0', '0', hexDigit (c.toNat / 16), hexDigit (c.toNat % 16)]
    else [c]

def quote (s : String) : List Char := '"' :: (s.toList.flatMap escape ++ ['"'])

/-- A string that is known. -/
def stringChars : Option String → List Char
  | some s => quote s
  | none => []

mutual

/-- The text of a value. Only whole values have one that can be read back. -/
def chars : Json → List Char
  | null => ['n', 'u', 'l', 'l']
  | bool true => ['t', 'r', 'u', 'e']
  | bool false => ['f', 'a', 'l', 's', 'e']
  | num n => n.chars
  | str s => stringChars s
  | arr items _ => '[' :: (itemChars items ++ [']'])
  | obj members _ => '\x7b' :: (memberChars members ++ ['\x7d'])
  | broken => []

def itemChars : List Json → List Char
  | [] => []
  | [v] => v.chars
  | v :: w :: vs => v.chars ++ ',' :: itemChars (w :: vs)

def memberChars : List (Option String × Json) → List Char
  | [] => []
  | [(k, v)] => stringChars k ++ ':' :: v.chars
  | (k, v) :: m :: ms => stringChars k ++ ':' :: (v.chars ++ ',' :: memberChars (m :: ms))

end

def render (v : Json) : String := String.ofList v.chars

end MiniJava.Json
