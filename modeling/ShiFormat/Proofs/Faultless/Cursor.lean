import ShiFormat.Proofs.Fault
import ShiFormat.Proofs.Lexing.Position

/-!
A cursor that checks its moves. It goes over a line break as over nothing else, it counts lines and
columns in words, and a piece of a text is cut where characters meet. In a text whose places have
room to spare it goes where the plain cursor goes.
-/
namespace ShiFormat

/-- The line and the column of every place of the text are words, and so are the next line, which a
diagnostic looks at, and the next column, where a region may stop. -/
def Fits (text : List Char) : Prop :=
  ∀ before, before <+: text →
    lineAfter before + 1 < wordLimit ∧ columnAfter before + 1 < wordLimit

/-- A text fits if it would fit on one line. -/
theorem fits_of_short {text : List Char} (short : text.length + 2 < wordLimit) : Fits text := by
  intro before front
  have shorter := front.length_le
  have lines : before.count '\n' ≤ before.length := List.count_le_length
  have columns : (before.reverse.takeWhile (· != '\n')).length ≤ before.length := by
    have part := (List.takeWhile_prefix (l := before.reverse) (· != '\n')).length_le
    rwa [List.length_reverse] at part
  unfold lineAfter columnAfter
  omega

namespace Cursor

/-- The cursor stands in the text, behind these characters of it. -/
structure Along (text before : List Char) (c : Cursor) : Prop where
  passed : Passed before c
  split : before ++ c.rest = text

theorem advanceBy_zero (c : Cursor) : c.advanceBy 0 = c := rfl

theorem advanceBy_succ (n : Nat) (c : Cursor) : c.advanceBy (n + 1) = c.advance.advanceBy n := by
  obtain ⟨offset, line, column, rest⟩ := c
  cases rest with
  | nil => simp [advance, advanceBy, Text.utf8Length]
  | cons x rest => simp [advance, advanceBy, Text.utf8Length]; omega

theorem advanceBy_add (n m : Nat) (c : Cursor) :
    (c.advanceBy n).advanceBy m = c.advanceBy (n + m) := by
  induction n generalizing c with
  | zero => rw [Nat.zero_add, advanceBy_zero]
  | succ n ih => rw [advanceBy_succ, ih, Nat.succ_add, advanceBy_succ]

theorem advanceBy_of_atEnd {c : Cursor} (none : c.rest = []) (n : Nat) : c.advanceBy n = c := by
  obtain ⟨offset, line, column, rest⟩ := c
  cases none
  simp [advanceBy, Text.utf8Length]

theorem advance_of_atEnd {c : Cursor} (none : c.rest = []) : c.advance = c :=
  advanceBy_of_atEnd none 1

theorem rest_advance {c : Cursor} {x : Char} {rest : List Char} (ahead : c.rest = x :: rest) :
    c.advance.rest = rest := by
  rw [advance, rest_advanceBy, ahead, List.drop_succ_cons, List.drop_zero]

/-- One character is passed before the others. -/
theorem advanceWhile_eq (test : Char → Bool) (c : Cursor) :
    c.advanceWhile test = if !c.atEnd && c.peek != '\n' && test c.peek then
      c.advance.advanceWhile test else c := by
  unfold Cursor.advanceWhile atEnd peek
  cases ahead : c.rest with
  | nil => simp [advanceBy_zero]
  | cons x rest =>
    cases passes : x != '\n' && test x with
    | false => simp [passes, advanceBy_zero]
    | true => simp [passes, advanceBy_succ, rest_advance ahead]

/-- One blank is passed before the others. -/
theorem skipBlanks_cons {c : Cursor} {x : Char} {rest : List Char} (ahead : c.rest = x :: rest)
    (blank : isBlank x) :
    c.skipBlanks = (if x = '\n' then c.newLine else c.advance).skipBlanks := by
  have left : (if x = '\n' then c.newLine else c.advance).rest = rest := by
    split
    · rw [rest_newLine, ahead, List.drop_succ_cons, List.drop_zero]
    · exact rest_advance ahead
  rw [skipBlanks, skipBlanks, left, ahead, List.takeWhile_cons_of_pos blank, List.foldl_cons]

theorem skipBlanks_solid {c : Cursor} (solid : isBlank c.peek = false) : c.skipBlanks = c := by
  unfold skipBlanks
  cases ahead : c.rest with
  | nil => rfl
  | cons x rest =>
    rw [peek, ahead] at solid
    rw [List.takeWhile_cons_of_neg (by simpa using solid)]
    rfl

namespace Along

variable {text before : List Char} {c : Cursor}

theorem front (along : Along text before c) : before <+: text := ⟨c.rest, along.split⟩

theorem advanceBy (along : Along text before c) {n : Nat} (plain : '\n' ∉ c.rest.take n) :
    Along text (before ++ c.rest.take n) (c.advanceBy n) where
  passed := along.passed.advanceBy plain
  split := by rw [rest_advanceBy, List.append_assoc, List.take_append_drop, along.split]

theorem newLine (along : Along text before c) {rest : List Char} (ahead : c.rest = '\n' :: rest) :
    Along text (before ++ ['\n']) c.newLine where
  passed := along.passed.newLine ahead
  split := by
    rw [rest_newLine, ahead, List.append_assoc, ← along.split, ahead]
    rfl

theorem skipBlanks (along : Along text before c) :
    ∃ gap, Along text (before ++ gap) c.skipBlanks := by
  have whole := List.takeWhile_append_dropWhile (p := isBlank) (l := c.rest)
  obtain ⟨passed, left⟩ := along.passed.skipBlanks whole.symm
    (List.all_eq_true.mp List.all_takeWhile) fun x head => by
      have stop := List.head?_dropWhile_not isBlank c.rest
      rw [Option.mem_def.mp head] at stop
      simpa using stop
  refine ⟨_, passed, ?_⟩
  rw [left, List.append_assoc, whole, along.split]

end Along
end Cursor

namespace Checked
open Cursor (Along)

def advance (c : Cursor) : Checked Cursor :=
  match c.rest with
  | [] => .ok c
  | x :: rest => do
    ensure (x != '\n')
    let column ← addWord c.column 1
    pure { c with offset := c.offset + x.utf8Size, column, rest }

def advanceBy : Nat → Cursor → Checked Cursor
  | 0, c => .ok c
  | n + 1, c => do advanceBy n (← advance c)

def newLine (c : Cursor) : Checked Cursor :=
  match c.rest with
  | '\n' :: rest => do
    let line ← addWord c.line 1
    pure ⟨c.offset + '\n'.utf8Size, line, 1, rest⟩
  | _ => fault .assertion

def advanceWhile (test : Char → Bool) : Nat → Cursor → Checked Cursor
  | 0, _ => fault .endless
  | rounds + 1, c =>
    if !c.atEnd && c.peek != '\n' && test c.peek then do advanceWhile test rounds (← advance c)
    else .ok c

def skipBlanks : Nat → Cursor → Checked Cursor
  | 0, _ => fault .endless
  | rounds + 1, c =>
    if c.peek = '\n' then do skipBlanks rounds (← newLine c)
    else if Cursor.isBlank c.peek then do skipBlanks rounds (← advance c)
    else .ok c

/-- The bytes of the text in front of the cursor. -/
def offset (text : List Char) (c : Cursor) : Checked Nat :=
  subtract (Text.utf8Length text) (Text.utf8Length c.rest)

def location (path : Path) (c : Cursor) : Checked Location := do
  ensure (c.line != 0 && c.column != 0)
  pure (c.location path)

/-- What is left of a text behind its first `n` bytes. -/
def dropBytes (n : Nat) : List Char → Checked (List Char)
  | [] => if n = 0 then .ok [] else fault .offBoundary
  | x :: rest =>
    if n = 0 then .ok (x :: rest)
    else if x.utf8Size ≤ n then dropBytes (n - x.utf8Size) rest
    else fault .offBoundary

/-- The first `n` bytes of a text. -/
def takeBytes (n : Nat) : List Char → Checked (List Char)
  | [] => if n = 0 then .ok [] else fault .offBoundary
  | x :: rest =>
    if n = 0 then .ok []
    else if x.utf8Size ≤ n then do pure (x :: (← takeBytes (n - x.utf8Size) rest))
    else fault .offBoundary

/-- The bytes of a text from a first one up to but not including a last one. -/
def slice (text : List Char) (start stop : Nat) : Checked (List Char) :=
  if start ≤ stop then do takeBytes (stop - start) (← dropBytes start text)
  else fault .offBoundary

theorem utf8Length_ne_zero (x : Char) (rest : List Char) : Text.utf8Length (x :: rest) ≠ 0 := by
  have some_bytes := x.utf8Size_pos
  rw [Text.utf8Length]
  omega

theorem dropBytes_ok (a b : List Char) : dropBytes (Text.utf8Length a) (a ++ b) = .ok b := by
  induction a with
  | nil => cases b <;> rfl
  | cons x rest ih =>
    rw [List.cons_append, dropBytes, if_neg (utf8Length_ne_zero x rest), Text.utf8Length,
      if_pos (Nat.le_add_right _ _), Nat.add_sub_cancel_left, ih]

theorem takeBytes_ok (a b : List Char) : takeBytes (Text.utf8Length a) (a ++ b) = .ok a := by
  induction a with
  | nil => cases b <;> rfl
  | cons x rest ih =>
    rw [List.cons_append, takeBytes, if_neg (utf8Length_ne_zero x rest), Text.utf8Length,
      if_pos (Nat.le_add_right _ _), Nat.add_sub_cancel_left, ih]
    rfl

theorem slice_ok (a b c : List Char) :
    slice (a ++ b ++ c) (Text.utf8Length a) (Text.utf8Length (a ++ b)) = .ok b := by
  rw [slice, Text.utf8Length_append, if_pos (Nat.le_add_right _ _), List.append_assoc,
    dropBytes_ok, Nat.add_sub_cancel_left]
  exact takeBytes_ok b c

section
variable {text before : List Char} {c : Cursor}

theorem advance_atEnd (none : c.rest = []) : advance c = .ok c := by
  unfold advance
  rw [none]

theorem advance_ok (fits : Fits text) (along : Along text before c) {x : Char} {rest : List Char}
    (ahead : c.rest = x :: rest) (other : x ≠ '\n') :
    advance c = .ok c.advance ∧ Along text (before ++ [x]) c.advance := by
  have room : c.column + 1 < wordLimit := by
    rw [along.passed.column]
    exact (fits before along.front).2
  constructor
  · obtain ⟨offset, line, column, rest⟩ := c
    cases ahead
    simp only [advance, ensure_ok (bne_iff_ne.mpr other), addWord_ok room, ok_bind]
    rfl
  · have first : c.rest.take 1 = [x] := by rw [ahead]; rfl
    rw [← first]
    exact along.advanceBy (by simpa [first] using other.symm)

theorem advanceBy_ok (fits : Fits text) (along : Along text before c) {n : Nat}
    (plain : '\n' ∉ c.rest.take n) : advanceBy n c = .ok (c.advanceBy n) := by
  induction n generalizing before c with
  | zero => rfl
  | succ n ih =>
    rw [advanceBy, Cursor.advanceBy_succ]
    cases ahead : c.rest with
    | nil =>
      rw [advance_atEnd ahead, Cursor.advance_of_atEnd ahead]
      exact ih along (by simp [ahead])
    | cons x rest =>
      rw [ahead, List.take_succ_cons, List.mem_cons, not_or] at plain
      obtain ⟨moved, onward⟩ := advance_ok fits along ahead (Ne.symm plain.1)
      rw [moved]
      refine ih onward ?_
      rw [Cursor.rest_advance ahead]
      exact plain.2

theorem newLine_ok (fits : Fits text) (along : Along text before c) {rest : List Char}
    (ahead : c.rest = '\n' :: rest) :
    newLine c = .ok c.newLine ∧ Along text (before ++ ['\n']) c.newLine := by
  have room : c.line + 1 < wordLimit := by
    rw [along.passed.line]
    exact (fits before along.front).1
  refine ⟨?_, along.newLine ahead⟩
  obtain ⟨offset, line, column, rest⟩ := c
  cases ahead
  simp only [newLine, addWord_ok room, ok_bind]
  rfl

theorem advanceWhile_ok (fits : Fits text) (along : Along text before c) (test : Char → Bool)
    {rounds : Nat} (enough : c.rest.length < rounds) :
    advanceWhile test rounds c = .ok (c.advanceWhile test) := by
  induction rounds generalizing before c with
  | zero => omega
  | succ rounds ih =>
    rw [advanceWhile, Cursor.advanceWhile_eq]
    split
    · next goes =>
      simp only [Cursor.atEnd, Cursor.peek, Bool.and_eq_true, Bool.not_eq_true', bne_iff_ne] at goes
      obtain ⟨⟨some_ahead, other⟩, -⟩ := goes
      cases ahead : c.rest with
      | nil => simp [ahead] at some_ahead
      | cons x rest =>
        rw [ahead] at other
        obtain ⟨moved, onward⟩ := advance_ok fits along ahead other
        rw [ahead, List.length_cons] at enough
        rw [moved]
        exact ih onward (by rw [Cursor.rest_advance ahead]; omega)
    · rfl

theorem skipBlanks_ok (fits : Fits text) (along : Along text before c) {rounds : Nat}
    (enough : c.rest.length < rounds) : skipBlanks rounds c = .ok c.skipBlanks := by
  induction rounds generalizing before c with
  | zero => omega
  | succ rounds ih =>
    rw [skipBlanks]
    cases blank : Cursor.isBlank c.peek with
    | false =>
      have other : c.peek ≠ '\n' := by
        intro newline
        rw [newline] at blank
        cases blank
      rw [if_neg other, if_neg (by simp), Cursor.skipBlanks_solid blank]
    | true =>
      cases ahead : c.rest with
      | nil =>
        rw [Cursor.peek, ahead] at blank
        cases blank
      | cons x rest =>
        have first : c.peek = x := by rw [Cursor.peek, ahead]; rfl
        rw [first] at blank ⊢
        rw [ahead, List.length_cons] at enough
        rw [Cursor.skipBlanks_cons ahead blank]
        by_cases newline : x = '\n'
        · subst newline
          obtain ⟨moved, onward⟩ := newLine_ok fits along ahead
          rw [if_pos rfl, if_pos rfl, moved]
          refine ih onward ?_
          rw [Cursor.rest_newLine, ahead, List.drop_succ_cons, List.drop_zero]
          omega
        · obtain ⟨moved, onward⟩ := advance_ok fits along ahead newline
          rw [if_neg newline, if_neg newline, if_pos rfl, moved]
          refine ih onward ?_
          rw [Cursor.rest_advance ahead]
          omega

theorem offset_ok (along : Along text before c) : offset text c = .ok c.offset := by
  have whole := Text.utf8Length_append before c.rest
  rw [along.split] at whole
  rw [offset, subtract_ok (by omega), along.passed.offset, whole, Nat.add_sub_cancel]

theorem location_ok (along : Along text before c) (path : Path) :
    location path c = .ok (c.location path) := by
  have line : c.line ≠ 0 := by
    rw [along.passed.line, lineAfter]
    omega
  have column : c.column ≠ 0 := by
    rw [along.passed.column, columnAfter]
    omega
  rw [location, ensure_ok (by simp [line, column])]
  rfl

/-- The text that the cursor has passed since it stood here. -/
theorem slice_passed (along : Along text before c) {n : Nat} (plain : '\n' ∉ c.rest.take n) :
    slice text c.offset (c.advanceBy n).offset = .ok (c.rest.take n) := by
  have after := along.advanceBy plain
  rw [along.passed.offset, after.passed.offset, ← after.split]
  exact slice_ok before (c.rest.take n) _

end
end Checked
end ShiFormat
