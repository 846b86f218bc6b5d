/-!
# Counting

Temporaries, labels and comparisons are numbered in the order in which they are made. The compiler
works with any numbers that can be counted in: from each there is a next one, and each has a value
that is written in names.

Natural numbers have no end. Words of 32 bits have one: behind the last word comes zero again, so
that names are made a second time from there on. (A compiler that checks its arithmetic stops there
instead.) As long as a count stays below `UInt32.size`, both give the same names.
-/

namespace MiniJava

class Counting (κ : Type) where
  zero : κ
  next : κ → κ
  /-- The value that is written in names. -/
  number : κ → Nat

namespace Counting

@[default_instance]
instance : Counting Nat where
  zero := 0
  next n := n + 1
  number n := n

/-- Words are counted up to the last one, then from zero again. -/
instance : Counting UInt32 where
  zero := 0
  next n := n + 1
  number n := n.toNat

@[simp] theorem next_nat (n : Nat) : next n = n + 1 := rfl

@[simp] theorem number_nat (n : Nat) : number n = n := rfl

/-- What is further on stays as much further on, also behind the last word. -/
theorem next_add (n k : UInt32) : next (n + k) = next n + k := by
  show n + k + 1 = n + 1 + k
  rw [UInt32.add_assoc, UInt32.add_comm k, ← UInt32.add_assoc]

end Counting

end MiniJava
