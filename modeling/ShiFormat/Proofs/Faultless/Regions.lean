import ShiFormat.Diagnostic
import ShiFormat.Proofs.Fault
import ShiFormat.Proofs.Order.Locations

/-!
Regions and diagnostics with every sum, every difference and every pair of places checked. Where
lines and columns have room for one more, the checks hold and change nothing.
-/
namespace ShiFormat
namespace Checked

/-- The place `n` columns to the right, if it is in a word. -/
def shifted (a : Location) (n : Nat) : Checked Location := do
  let column ← addWord a.column n
  pure { a with column }

def between (start stop : Location) : Checked Span :=
  match Span.between start stop with
  | .ok span => .ok span
  | .error empty => fault (.emptyRange empty)

/-- A length as a word, which drops what does not fit. -/
def asWord (n : Nat) : Nat := n % wordLimit

def tokenSpan (t : Token) : Checked Span := do
  let stop ← shifted t.location (asWord (max t.value.length 1))
  between t.location stop

def singleColumn (location : Location) : Checked Span := do
  let stop ← shifted location 1
  between location stop

def errorSpan : SourceError → Checked Span
  | .unexpectedToken token _ => tokenSpan token
  | error => singleColumn error.location

def width (s : Span) : Checked Nat :=
  if s.start.line = s.stop.line then subtract s.stop.column s.start.column else .ok 1

/-- A line of the source. Its index is a difference. -/
def line (s : SourceFile) (number : Nat) : Checked (List Char) :=
  if number = 0 then .ok []
  else do
    let index ← subtract number 1
    pure (s.line (index + 1))

def sourceRow (colour : Bool) (d : Diagnostic) (number : Nat) : Checked (List Char) := do
  let text ← line d.source number
  pure (Style.place.paint colour (Diagnostic.padNumber number) ++ ' ' :: Diagnostic.bar colour ++
    ' ' :: text ++ ['\n'])

def caretRow (colour : Bool) (d : Diagnostic) : Checked (List Char) := do
  let width ← width d.span
  pure (List.replicate 5 ' ' ++ Diagnostic.bar colour ++
    ' ' :: List.replicate (d.span.start.column - 1) ' ' ++
    d.severity.style.paint colour (List.replicate (max width 1) '^') ++ ['\n'])

def render (colour : Bool) (d : Diagnostic) : Checked (List Char) := do
  let number := d.span.start.line
  let before ← if 1 < number then do sourceRow colour d (← subtract number 1) else pure []
  let this ← sourceRow colour d number
  let carets ← caretRow colour d
  let next ← addWord number 1
  let after ← if (← line d.source next).isEmpty then pure [] else sourceRow colour d next
  pure (d.headRow colour ++ d.pointerRow colour ++ before ++ this ++ carets ++ after)

end Checked

/-- The line and the column are words, with room for one more. -/
structure Location.Roomy (a : Location) : Prop where
  line : a.line + 1 < wordLimit
  column : a.column + 1 < wordLimit

theorem Span.across_between (start : Location) (n : Nat) :
    Span.between start (start.shifted (max n 1)) = .ok (Span.across start n) :=
  dif_pos (start.lt_shifted (by omega))

/-- On one line a region stops to the right of its start. -/
theorem Span.column_lt (s : Span) (same : s.start.line = s.stop.line) :
    s.start.column < s.stop.column := by
  have ordered := Location.lt_iff.mp s.ordered
  omega

namespace Checked

theorem shifted_ok {a : Location} {n : Nat} (room : a.column + n < wordLimit) :
    shifted a n = .ok (a.shifted n) := by
  rw [shifted, addWord_ok room]
  rfl

theorem between_across (start : Location) (n : Nat) :
    between start (start.shifted (max n 1)) = .ok (Span.across start n) := by
  rw [between, Span.across_between]

theorem tokenSpan_ok {t : Token} (room : t.location.column + max t.value.length 1 < wordLimit) :
    tokenSpan t = .ok t.span := by
  have word : asWord (max t.value.length 1) = max t.value.length 1 := Nat.mod_eq_of_lt (by omega)
  rw [tokenSpan, word, shifted_ok room]
  exact between_across _ _

theorem singleColumn_ok {location : Location} (roomy : location.Roomy) :
    singleColumn location = .ok (Span.across location 1) := by
  rw [singleColumn, shifted_ok roomy.column]
  exact between_across _ 1

theorem width_ok (s : Span) : width s = .ok s.width := by
  unfold width Span.width
  split
  · next same => exact subtract_ok (Nat.le_of_lt (s.column_lt same))
  · rfl

theorem line_eq (s : SourceFile) (number : Nat) : line s number = .ok (s.line number) := by
  cases number with
  | zero => rfl
  | succ n =>
    rw [line, if_neg (Nat.succ_ne_zero n), subtract_ok (Nat.succ_pos n)]
    rfl

theorem sourceRow_eq (colour : Bool) (d : Diagnostic) (number : Nat) :
    sourceRow colour d number = .ok (d.sourceRow colour number) := by
  rw [sourceRow, line_eq]
  rfl

/-- A diagnostic is shown as it is if there is a number for the line after it. -/
theorem render_ok (colour : Bool) {d : Diagnostic} (room : d.span.start.line + 1 < wordLimit) :
    render colour d = .ok (d.render colour) := by
  have carets : caretRow colour d = .ok (d.caretRow colour) := by
    rw [caretRow, width_ok]
    rfl
  simp only [render, Diagnostic.render, sourceRow_eq, carets, addWord_ok room, line_eq]
  by_cases first : 1 < d.span.start.line
  · simp only [first, ↓reduceIte, subtract_ok (Nat.le_of_lt first), ok_bind]
    split <;> rfl
  · simp only [first, ↓reduceIte, ok_bind]
    split <;> rfl

end Checked
end ShiFormat
