import ShiFormat.Text

/-!
A reading position in a text: the bytes passed, the line and column of the next character, and
the characters still ahead.
-/
namespace ShiFormat

structure Cursor where
  offset : Nat
  line : Nat
  column : Nat
  rest : List Char
  deriving DecidableEq, Repr

namespace Cursor

def atStart (text : List Char) : Cursor := ⟨0, 1, 1, text⟩

def atEnd (c : Cursor) : Bool := c.rest.isEmpty

/-- The next character, or NUL at the end of the text. -/
def peek (c : Cursor) : Char := c.rest.headD '\x00'

/-- The character after the next one, or NUL if there is none. -/
def peek2 (c : Cursor) : Char := c.rest.tail.headD '\x00'

/-- Passes `n` characters of the current line, or all that are left. -/
def advanceBy (n : Nat) (c : Cursor) : Cursor :=
  let passed := c.rest.take n
  { c with
    offset := c.offset + Text.utf8Length passed
    column := c.column + passed.length
    rest := c.rest.drop n }

def advance (c : Cursor) : Cursor := c.advanceBy 1

/-- Passes a line break. -/
def newLine (c : Cursor) : Cursor :=
  ⟨c.offset + Text.utf8Length (c.rest.take 1), c.line + 1, 1, c.rest.drop 1⟩

/-- Passes the characters ahead on this line up to the first that fails the test. -/
def advanceWhile (test : Char → Bool) (c : Cursor) : Cursor :=
  c.advanceBy (c.rest.takeWhile fun x => x != '\n' && test x).length

def isBlank (x : Char) : Bool := x == ' ' || x == '\t' || x == '\r' || x == '\n'

/-- Passes the blanks ahead, on this line and the next ones. -/
def skipBlanks (c : Cursor) : Cursor :=
  (c.rest.takeWhile isBlank).foldl (fun c x => if x = '\n' then c.newLine else c.advance) c

theorem rest_advanceBy (n : Nat) (c : Cursor) : (c.advanceBy n).rest = c.rest.drop n := rfl

theorem rest_newLine (c : Cursor) : c.newLine.rest = c.rest.drop 1 := rfl

theorem rest_skip (blanks : List Char) (c : Cursor) :
    (blanks.foldl (fun c x => if x = '\n' then c.newLine else c.advance) c).rest =
      c.rest.drop blanks.length := by
  induction blanks generalizing c with
  | nil => rfl
  | cons x more ih =>
    rw [List.foldl_cons, ih, List.length_cons]
    split <;> simp [rest_newLine, advance, rest_advanceBy]

theorem rest_skipBlanks (c : Cursor) : c.skipBlanks.rest = c.rest.dropWhile isBlank := by
  rw [skipBlanks, rest_skip]
  generalize c.rest = text
  induction text with
  | nil => rfl
  | cons x more ih => cases h : isBlank x <;> simp [h, ih]

end Cursor
end ShiFormat
