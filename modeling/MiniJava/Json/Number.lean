/-!
# Numbers in JSON texts

A number is kept as it is written: a sign, the digits before and after the point, and an exponent.
What it stands for is decided later (`Number.value?`): an integer if it has neither fraction nor
exponent and fits 64 bits, a double otherwise.

**Rounding.** Decimal digits are collected into a 64-bit significand; digits that no longer fit
only count as places. The significand is then multiplied with or divided by one power of ten, so a
double read from many digits can differ from the nearest one in its last bit.
-/

namespace MiniJava.Json

/-- A number as written. -/
structure Number where
  negative : Bool := false
  whole : List Char
  fraction : List Char := []
  /-- Whether the exponent is negative, and its digits. -/
  exponent : Option (Bool × List Char) := none
deriving DecidableEq

namespace Number

def ofNat (n : Nat) : Number := { whole := Nat.toDigits 10 n }

def ofInt (i : Int) : Number := { negative := i < 0, whole := Nat.toDigits 10 i.natAbs }

/-! ## Reading and writing -/

/-- The sign at the head of the text. -/
def readSign : List Char → Bool × List Char
  | '-' :: cs => (true, cs)
  | cs => (false, cs)

/-- The digits after a point, if there is one. A point must be followed by a digit. -/
def readFraction : List Char → Option (List Char × List Char)
  | '.' :: cs =>
    let digits := cs.takeWhile Char.isDigit
    if digits.isEmpty then none else some (digits, cs.dropWhile Char.isDigit)
  | cs => some ([], cs)

/-- Sign and digits of an exponent. -/
def readExponentDigits (cs : List Char) : Option ((Bool × List Char) × List Char) :=
  let (negative, cs) :=
    match cs with
    | '+' :: r => (false, r)
    | '-' :: r => (true, r)
    | r => (false, r)
  let digits := cs.takeWhile Char.isDigit
  if digits.isEmpty then none else some ((negative, digits), cs.dropWhile Char.isDigit)

/-- The exponent, if there is one. -/
def readExponent : List Char → Option (Option (Bool × List Char) × List Char)
  | 'e' :: cs => (readExponentDigits cs).map fun (e, rest) => (some e, rest)
  | 'E' :: cs => (readExponentDigits cs).map fun (e, rest) => (some e, rest)
  | cs => some (none, cs)

/-- Digits without a needless zero in front. -/
def isWhole : List Char → Bool
  | [] => false
  | ['0'] => true
  | c :: _ => c != '0'

/-- The number at the head of the text, and the text after it. -/
def read? (cs : List Char) : Option (Number × List Char) :=
  let (negative, cs) := readSign cs
  let whole := cs.takeWhile Char.isDigit
  if isWhole whole then do
    let (fraction, cs) ← readFraction (cs.dropWhile Char.isDigit)
    let (exponent, cs) ← readExponent cs
    some ({ negative, whole, fraction, exponent }, cs)
  else none

/-- The number as it is written. -/
def chars (n : Number) : List Char :=
  (if n.negative then ['-'] else []) ++ n.whole
    ++ (if n.fraction.isEmpty then [] else '.' :: n.fraction)
    ++ match n.exponent with
      | none => []
      | some (negative, digits) => 'e' :: (if negative then '-' :: digits else digits)

/-! ## Values -/

/-- What a number stands for. -/
inductive Value where
  | integer (value : Int)
  | double (value : Float)

/-- The largest value of an unsigned 64-bit word. -/
def maxWord : Nat := Nat.pow 2 64 - 1

/-- The largest value of a signed 32-bit word. -/
def maxExponent : Nat := Nat.pow 2 31 - 1

/-- Appends digits to a number while it does not exceed `bound`, and returns the digits left. -/
def collect (bound : Nat) : Nat → List Char → Nat × List Char
  | n, [] => (n, [])
  | n, c :: cs =>
    let next := 10 * n + (c.toNat - '0'.toNat)
    if bound < next then (n, c :: cs) else collect bound next cs

/-- `significand * 10 ^ exponent` in floating point; `none` if it is too large for a double. A
64-bit significand vanishes after two divisions by `10 ^ 308`, so a few rounds suffice. -/
def scale (significand : Float) (exponent : Int) : Nat → Option Float
  | 0 => some significand
  | fuel + 1 =>
    if exponent.natAbs ≤ 308 then
      let ten := Float.ofScientific 1 false exponent.natAbs
      if 0 ≤ exponent then
        let f := significand * ten
        if f.isInf then none else some f
      else some (significand / ten)
    else if significand == 0 then some significand
    else if 0 ≤ exponent then none
    else scale (significand / Float.ofScientific 1 false 308) (exponent + 308) fuel

/-- The magnitude of the number as a double; `none` if it is too large. -/
def magnitude? (n : Number) : Option Float :=
  let (significand, left) := collect maxWord 0 n.whole
  let places : Int := left.length
  let (significand, left) := collect maxWord significand n.fraction
  let places := places - (n.fraction.length - left.length : Nat)
  match n.exponent with
  | none => scale (Float.ofNat significand) places 4
  | some (negative, digits) =>
    let (e, left) := collect maxExponent 0 digits
    if left.isEmpty then
      scale (Float.ofNat significand) (if negative then places - e else places + e) 4
    else if significand != 0 && !negative then none
    else some 0

/-- What the number stands for; `none` if it is too large for a double. -/
def value? (n : Number) : Option Value :=
  let whole := Nat.ofDigitChars 10 n.whole 0
  if n.fraction.isEmpty && n.exponent.isNone && !n.negative && whole ≤ maxWord then
    some (.integer whole)
  else if n.fraction.isEmpty && n.exponent.isNone && n.negative && 0 < whole
      && whole ≤ Nat.pow 2 63 then
    some (.integer (-whole))
  else
    n.magnitude?.map fun f => .double (if n.negative then -f else f)

end Number

end MiniJava.Json
