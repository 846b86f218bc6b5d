import MiniJava.Text.Hidden

/-!
# Quoted texts

A text between quotes, as messages show it: the quote, the backslash and the usual control
characters with a backslash in front, other characters without a shape by their number.
-/

namespace MiniJava.Text

/-- The number of a character in lower-case hexadecimal, between braces. -/
def byNumber (c : Char) : List Char :=
  '\\' :: 'u' :: '\x7b' :: (Nat.toDigits 16 c.toNat ++ ['\x7d'])

/-- A character inside quotes. -/
def quotedChar (c : Char) : List Char :=
  if c == '"' then ['\\', '"']
  else if c == '\\' then ['\\', '\\']
  else if c == '\n' then ['\\', 'n']
  else if c == '\r' then ['\\', 'r']
  else if c == '\t' then ['\\', 't']
  else if c.toNat == 0 then ['\\', '0']
  else if c.toNat < 0x20 || (0x7f ≤ c.toNat && c.toNat < 0xa0) then byNumber c
  else if 0xa0 ≤ c.toNat && isHidden c.toNat then byNumber c
  else [c]

def quoted (s : String) : String :=
  String.ofList ('"' :: (s.toList.flatMap quotedChar ++ ['"']))

/-- Several quoted texts between square brackets. -/
def quotedList (ss : List String) : String :=
  "[" ++ String.intercalate ", " (ss.map quoted) ++ "]"

end MiniJava.Text
