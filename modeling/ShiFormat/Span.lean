import ShiFormat.Location

/-!
Regions of one file, from a first place up to but not including a last one. A region is never
empty, so what it covers can always be underlined.
-/
namespace ShiFormat

structure Span where
  start : Location
  stop : Location
  ordered : start < stop

/-- Two places that bound no region. -/
structure EmptySpan where
  start : Location
  stop : Location
  deriving Repr

def EmptySpan.message (e : EmptySpan) : String :=
  s!"empty or inverted range {e.start} .. {e.stop}"

namespace Span

def between (start stop : Location) : Except EmptySpan Span :=
  if ordered : start < stop then .ok ⟨start, stop, ordered⟩ else .error ⟨start, stop⟩

/-- A region of `n` columns, or of one column if `n` is 0. -/
def across (start : Location) (n : Nat) : Span :=
  ⟨start, start.shifted (max n 1), start.lt_shifted (by omega)⟩

/-- The columns covered, counted on the first line only. -/
def width (s : Span) : Nat :=
  if s.start.line = s.stop.line then s.stop.column - s.start.column else 1

end Span
end ShiFormat
