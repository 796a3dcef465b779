import ShiFormat.Tokenize
import ShiFormat.Proofs.Order.Locations

/-!
Where a cursor is. Its line counts the newlines passed, its column the characters passed since the
last of them, and its offset the bytes passed. Every move of the lexer keeps this up.
-/
namespace ShiFormat

/-- The line of the character after these. -/
def lineAfter (before : List Char) : Nat := 1 + before.count '\n'

/-- The column of the character after these. -/
def columnAfter (before : List Char) : Nat := 1 + (before.reverse.takeWhile (· != '\n')).length

/-- The place of the character after these, in the file of this path. -/
def placeAfter (path : Path) (before : List Char) : Location :=
  ⟨some path, lineAfter before, columnAfter before⟩

theorem lineAfter_append (before more : List Char) :
    lineAfter (before ++ more) = lineAfter before + more.count '\n' := by
  simp only [lineAfter, List.count_append]
  omega

theorem bne_newline {text : List Char} (plain : '\n' ∉ text) :
    ∀ x ∈ text, (x != '\n') = true := by
  intro x member
  rw [bne_iff_ne]
  rintro rfl
  exact plain member

theorem columnAfter_append {more : List Char} (plain : '\n' ∉ more) (before : List Char) :
    columnAfter (before ++ more) = columnAfter before + more.length := by
  have reversed : '\n' ∉ more.reverse := by rwa [List.mem_reverse]
  unfold columnAfter
  rw [List.reverse_append, List.takeWhile_append_of_pos (bne_newline reversed), List.length_append,
    List.length_reverse]
  omega

theorem columnAfter_newline (before : List Char) : columnAfter (before ++ ['\n']) = 1 := by
  simp [columnAfter]

/-- Within a line, the place moves by one column for each character. -/
theorem placeAfter_append {more : List Char} (plain : '\n' ∉ more) (path : Path)
    (before : List Char) :
    placeAfter path (before ++ more) = (placeAfter path before).shifted more.length := by
  have line : lineAfter (before ++ more) = lineAfter before := by
    rw [lineAfter_append, List.count_eq_zero.mpr plain, Nat.add_zero]
  simp only [placeAfter, Location.shifted, line, columnAfter_append plain]

/-- What comes later in a text has no earlier place. -/
theorem placeAfter_le (path : Path) (before more : List Char) :
    placeAfter path before ≤ placeAfter path (before ++ more) := by
  have same : (placeAfter path before).file = (placeAfter path (before ++ more)).file := rfl
  rw [Location.le_iff same]
  by_cases newline : '\n' ∈ more
  · left
    have some_newline : 0 < more.count '\n' := List.count_pos_iff.mpr newline
    have line := lineAfter_append before more
    simp only [placeAfter]
    omega
  · right
    rw [placeAfter_append newline]
    simp [Location.shifted]

namespace Cursor

/-- The cursor has passed these characters. -/
structure Passed (before : List Char) (c : Cursor) : Prop where
  offset : c.offset = Text.utf8Length before
  line : c.line = lineAfter before
  column : c.column = columnAfter before

namespace Passed

variable {before : List Char} {c : Cursor}

theorem start (text : List Char) : Passed [] (atStart text) := ⟨rfl, rfl, rfl⟩

theorem location (passed : Passed before c) (path : Path) :
    c.location path = placeAfter path before := by
  rw [Cursor.location, passed.line, passed.column]
  rfl

theorem advanceBy (passed : Passed before c) {n : Nat} (plain : '\n' ∉ c.rest.take n) :
    Passed (before ++ c.rest.take n) (c.advanceBy n) where
  offset := by rw [Text.utf8Length_append, ← passed.offset]; rfl
  line := by rw [lineAfter_append, List.count_eq_zero.mpr plain, ← passed.line]; rfl
  column := by rw [columnAfter_append plain, ← passed.column]; rfl

theorem newLine (passed : Passed before c) {rest : List Char} (head : c.rest = '\n' :: rest) :
    Passed (before ++ ['\n']) c.newLine where
  offset := by rw [Text.utf8Length_append, ← passed.offset, Cursor.newLine, head]; rfl
  line := by rw [lineAfter_append, ← passed.line]; rfl
  column := by rw [columnAfter_newline]; rfl

theorem skip (passed : Passed before c) {blanks rest : List Char}
    (ahead : c.rest = blanks ++ rest) :
    Passed (before ++ blanks)
      (blanks.foldl (fun c x => if x = '\n' then c.newLine else c.advance) c) := by
  induction blanks generalizing before c with
  | nil => simpa using passed
  | cons x blanks ih =>
    rw [List.foldl_cons, ← List.singleton_append, ← List.append_assoc]
    have first : c.rest.take 1 = [x] := by simp [ahead]
    have tail : c.rest.drop 1 = blanks ++ rest := by simp [ahead]
    split
    · next newline =>
      subst newline
      exact ih (passed.newLine ahead) tail
    · next other =>
      have moved := passed.advanceBy (n := 1) (by simp [first, Ne.symm other])
      rw [first] at moved
      exact ih moved tail

theorem skipBlanks (passed : Passed before c) {blanks rest : List Char}
    (ahead : c.rest = blanks ++ rest) (all : ∀ x ∈ blanks, isBlank x)
    (solid : ∀ x ∈ rest.head?, isBlank x = false) :
    Passed (before ++ blanks) c.skipBlanks ∧ c.skipBlanks.rest = rest := by
  have stop : rest.takeWhile isBlank = [] ∧ rest.dropWhile isBlank = rest := by
    cases rest with
    | nil => simp
    | cons x rest => simp [solid x rfl]
  constructor
  · have moved := passed.skip ahead
    rw [Cursor.skipBlanks, ahead, List.takeWhile_append_of_pos all, stop.1, List.append_nil]
    exact moved
  · rw [rest_skipBlanks, ahead, List.dropWhile_append_of_pos all, stop.2]

end Passed
end Cursor
end ShiFormat
