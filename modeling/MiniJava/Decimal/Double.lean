import MiniJava.Decimal.Shortest

/-!
# The text of a double

Doubles are written with their shortest digits, positionally while the decimal point stands at
most sixteen places to the right of the first digit or four zeros to the left of it, and with a
signed exponent otherwise. A positional text always has a fraction, `.0` if nothing else.
-/

namespace MiniJava.Decimal

/-- The magnitude of a double as a binary number, `none` for zero. -/
def Binary.ofBits (bits : UInt64) : Option Binary :=
  let exponent : Nat := bits.toNat / Nat.pow 2 52 % Nat.pow 2 11
  let fraction := bits.toNat % Nat.pow 2 52
  if exponent == 0 then
    if fraction == 0 then none else some ⟨fraction, -1074, false⟩
  else some ⟨fraction + Nat.pow 2 52, (exponent : Int) - 1075, fraction == 0 && exponent != 1⟩

/-- An exponent of ten, with its sign. -/
def exponentChars (e : Int) : List Char :=
  'e' :: (if e < 0 then '-' else '+') :: Nat.toDigits 10 e.natAbs

/-- Digits with the decimal point behind the first `point` of them. -/
def place (digits : List Char) (point : Int) : List Char :=
  let n : Int := digits.length
  if n ≤ point && point ≤ 16 then
    digits ++ List.replicate (point - n).toNat '0' ++ ['.', '0']
  else if 0 < point && point ≤ 16 then
    digits.take point.toNat ++ '.' :: digits.drop point.toNat
  else if -5 < point && point ≤ 0 then
    '0' :: '.' :: List.replicate (-point).toNat '0' ++ digits
  else
    digits.take 1 ++ (if n == 1 then [] else '.' :: digits.drop 1)
      ++ exponentChars (point - 1)

/-- The text of a finite double. -/
def Double.text (value : Float) : String :=
  let sign := if value.toBits.toNat / Nat.pow 2 63 == 1 then ['-'] else []
  match Binary.ofBits value.toBits with
  | none => String.ofList (sign ++ ['0', '.', '0'])
  | some b =>
    let d := shortest b
    let digits := Nat.toDigits 10 d.digits
    String.ofList (sign ++ place digits (digits.length + d.exponent))

end MiniJava.Decimal
