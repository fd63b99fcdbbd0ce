import ChainMapping.Text.Bytes

/-!
# Spans

A place in a chain is a half-open range of byte offsets.  Columns shown to a reader count from one.
-/

namespace ChainMapping

/-- The bytes from `start` up to, but not including, `stop`. -/
structure Span where
  start : Nat
  stop : Nat
  deriving DecidableEq, Repr, Inhabited

namespace Span

/-- The single byte at an offset. -/
def byte (offset : Nat) : Span := ⟨offset, offset + 1⟩

/-- The column of the first byte, counted from one. -/
def column (s : Span) : Nat := s.start + 1

def length (s : Span) : Nat := s.stop - s.start

def isEmpty (s : Span) : Bool := s.start == s.stop

/-- The smallest span that covers both. -/
def merge (a b : Span) : Span := ⟨min a.start b.start, max a.stop b.stop⟩

/-- The text that the span covers, none when it is out of range or cuts a character. -/
def slice (s : Span) (text : String) : Option String :=
  (Text.sliceBytes s.start s.stop text.toList).map String.ofList

/-- The columns as a reader sees them. -/
def display (s : Span) : String :=
  if s.length ≤ 1 then s!"col {s.column}" else s!"cols {s.column}-{s.stop}"

end Span
end ChainMapping
