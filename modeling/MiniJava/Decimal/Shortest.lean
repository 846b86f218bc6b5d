/-!
# Shortest decimals

The text of a binary floating-point number has the fewest digits that still tell it from its
neighbours. A positive double is `m * 2 ^ q`; every real in the interval half-way to the
neighbours rounds to it, the ends included when `m` is even. On the grids of multiples of
`10 ^ k`, from coarse to fine, the first grid with a point in that interval gives the digits; of
two such points the nearer one is taken, and of two equally near ones the even one.

All comparisons are between natural numbers, so nothing is rounded on the way.
-/

namespace MiniJava.Decimal

/-- A positive binary number `m * 2 ^ q`. Its lower neighbour is at half the usual distance when
`narrow` is set. -/
structure Binary where
  m : Nat
  q : Int
  narrow : Bool

/-- The decimal number `digits * 10 ^ exponent`. -/
structure Scaled where
  digits : Nat
  exponent : Int
deriving DecidableEq

/-- `base ^ k` as a fraction of natural numbers. -/
def power (base : Nat) (k : Int) : Nat × Nat :=
  if 0 ≤ k then (Nat.pow base k.toNat, 1) else (1, Nat.pow base (-k).toNat)

namespace Binary

/-- Four times `b` in units of `10 ^ k`, as a fraction. -/
def scale (b : Binary) (k : Int) : Nat × Nat :=
  let (two, two') := power 2 (b.q - 2)
  let (ten, ten') := power 10 k
  (two * ten', two' * ten)

/-- The point of the grid of multiples of `10 ^ k` that rounds to `b`. If there are two, it is the
nearer one, and the even one if both are equally near. -/
def onGrid (b : Binary) (k : Int) : Option Nat :=
  let (num, den) := b.scale k
  let value := 4 * b.m * num
  let high := (4 * b.m + 2) * num
  let low := (if b.narrow then 4 * b.m - 1 else 4 * b.m - 2) * num
  let inside (t : Nat) : Bool :=
    if b.m % 2 == 0 then low ≤ t * den && t * den ≤ high else low < t * den && t * den < high
  let below := value / den
  let above := below + 1
  match inside below, inside above with
  | true, true =>
    let down := value - below * den
    let up := above * den - value
    some (if down < up || (down == up && below % 2 == 0) then below else above)
  | true, false => some below
  | false, true => some above
  | false, false => none

/-- The exponent of the leading decimal digit, searched for from `k` down. -/
def leading (b : Binary) (k : Int) : Nat → Int
  | 0 => k
  | fuel + 1 =>
    let (num, den) := b.scale k
    if den ≤ 4 * b.m * num then k else leading b (k - 1) fuel

/-- The first grid, from exponent `k` down, with a point that rounds to `b`. -/
def search (b : Binary) (k : Int) : Nat → Scaled
  | 0 => ⟨b.m, b.q⟩
  | fuel + 1 =>
    match b.onGrid k with
    | some t => ⟨t, k⟩
    | none => search b (k - 1) fuel

end Binary

/-- Drops the zeros at the end of the digits. -/
def Scaled.normalize (d : Scaled) : Nat → Scaled
  | 0 => d
  | fuel + 1 =>
    if d.digits % 10 == 0 && d.digits != 0 then normalize ⟨d.digits / 10, d.exponent + 1⟩ fuel
    else d

/-- The shortest decimal that rounds to `b`. A double has its leading digit between `10 ^ 308` and
`10 ^ (-324)`, and 17 digits always suffice. -/
def shortest (b : Binary) : Scaled :=
  (b.search (b.leading 308 633) 18).normalize 20

end MiniJava.Decimal
