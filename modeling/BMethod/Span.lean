/-!
# Spans

A span is a range of byte offsets into the text of a machine or formula, in its UTF-8 form.
-/

namespace BMethod

/-- The bytes from `start` up to, and without, `stop`. -/
structure Span where
  start : Nat
  stop : Nat
  deriving DecidableEq, Repr, Inhabited

namespace Span

/-- The span of no bytes at an offset. -/
def point (offset : Nat) : Span := ⟨offset, offset⟩

/-- The least span that covers both. -/
def merge (a b : Span) : Span := ⟨min a.start b.start, max a.stop b.stop⟩

/-- The number of bytes covered, zero for a span that ends before it starts. -/
def length (s : Span) : Nat := s.stop - s.start

/-- A span that covers no byte. -/
def isEmpty (s : Span) : Bool := s.stop ≤ s.start

/-- A span is written as its two offsets with two dots between them. -/
def text (s : Span) : String := s!"{s.start}..{s.stop}"

end Span

end BMethod
