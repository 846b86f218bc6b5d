/-!
# Source positions

A `Span` is a range of bytes of the source text. Trees that were not read from a text carry the
empty span `0..0`, which stands for "position unknown". `Located` attaches a span to a value.
-/

namespace MiniJava

/-- A range of source bytes, from `start` up to but not including `stop`. -/
structure Span where
  start : UInt32
  stop : UInt32
deriving DecidableEq

namespace Span

/-- The position of what has no source text. -/
def unknown : Span := ⟨0, 0⟩

instance : Inhabited Span := ⟨unknown⟩

def isUnknown (s : Span) : Bool := s == unknown

/-- The smallest span that covers both. -/
def merge (s t : Span) : Span :=
  ⟨if s.start ≤ t.start then s.start else t.start, if s.stop ≤ t.stop then t.stop else s.stop⟩

/-- The written form, such as `3..7`. -/
def text (s : Span) : String :=
  s!"{s.start.toNat}..{s.stop.toNat}"

end Span

/-- A value together with its place in the source. -/
structure Located (α : Type) where
  node : α
  span : Span := Span.unknown
deriving DecidableEq

end MiniJava
