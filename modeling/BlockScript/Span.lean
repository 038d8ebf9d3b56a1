/-!
# Source spans

A span is a half-open range of byte offsets into a source text. Offsets that do not fit in 32 bits
collapse onto the largest one that does, so a span of a huge source still points into it.
-/

namespace BlockScript

structure Span where
  start : Nat
  stop : Nat
deriving DecidableEq, Repr, Inhabited

namespace Span

def maxOffset : Nat := 4294967295

def ofOffsets (start stop : Nat) : Span := ⟨min start maxOffset, min stop maxOffset⟩

/-- Number of bytes covered; a reversed span covers none. -/
def length (s : Span) : Nat := s.stop - s.start

def isEmpty (s : Span) : Bool := s.stop ≤ s.start

/-- The smallest span that covers both. -/
def merge (s t : Span) : Span := ⟨min s.start t.start, max s.stop t.stop⟩

def render (s : Span) : String := s!"{s.start}..{s.stop}"

end Span

end BlockScript
