import ShiFormat.Proofs.Diagnostics.Alignment
import ShiFormat.Proofs.Diagnostics.Colour

/-!
The carets of a diagnostic. They stand under the characters of the line that its region covers, and
for a token these are its text, unless the line ends in a comment and a carriage return.
-/
namespace ShiFormat

/-- The characters of a row that have a caret below them. -/
def aboveCarets (row marks : List Char) : List Char :=
  ((row.zip marks).filter (·.2 == '^')).map Prod.fst

theorem aboveCarets_append {front marks : List Char} (same : front.length = marks.length)
    (none : '^' ∉ marks) (row more : List Char) :
    aboveCarets (front ++ row) (marks ++ more) = aboveCarets row more := by
  have empty : (front.zip marks).filter (·.2 == '^') = [] := by
    rw [List.filter_eq_nil_iff]
    rintro ⟨c, mark⟩ member caret
    have marked := (List.of_mem_zip member).2
    simp only [beq_iff_eq] at caret
    exact none (caret ▸ marked)
  rw [aboveCarets, List.zip_append same, List.filter_append, empty, List.nil_append]
  rfl

theorem aboveCarets_blanks (n : Nat) (row marks : List Char) :
    aboveCarets row (List.replicate n ' ' ++ marks) = aboveCarets (row.drop n) marks := by
  induction n generalizing row with
  | zero => rfl
  | succ n ih =>
    cases row with
    | nil => rfl
    | cons c row => exact ih row

theorem aboveCarets_carets (n : Nat) (row : List Char) :
    aboveCarets row (List.replicate n '^') = row.take n := by
  induction n generalizing row with
  | zero => simp [aboveCarets]
  | succ n ih =>
    cases row with
    | nil => rfl
    | cons c row => exact congrArg (c :: ·) (ih row)

namespace Diagnostic

/-- The caret row behind its bar and a space. -/
def marks (d : Diagnostic) : List Char := d.markRow.drop (d.markRow.idxOf '|' + 2)

/-- The characters of the line of the region that have a caret below them, if the line begins where
the caret row goes on behind its bar and a space. -/
def underlined (d : Diagnostic) : List Char :=
  aboveCarets (d.source.line d.span.start.line) d.marks

theorem visible_caretRow_append (colour : Bool) (d : Diagnostic) (rest : List Char) :
    Style.visible (d.caretRow colour ++ rest) = d.markRow ++ '\n' :: Style.visible rest := by
  have blanks (n : Nat) : '\x1b' ∉ List.replicate n ' ' := by simp
  have carets (n : Nat) : '\x1b' ∉ List.replicate n '^' := by simp
  simp only [caretRow, bar, List.append_assoc, List.cons_append, Style.visible_append (blanks _)]
  rw [Style.visible_paint colour _ (by decide), ← List.cons_append, ← List.replicate_succ,
    Style.visible_append (blanks _), Style.visible_paint colour _ (carets _), List.nil_append,
    Style.visible_cons (by decide), markRow_eq]
  simp [List.replicate_succ]

theorem visible_caretRow (colour : Bool) (d : Diagnostic) :
    Style.visible (d.caretRow colour) = d.markRow ++ ['\n'] := by
  have row := visible_caretRow_append colour d []
  rwa [List.append_nil, Style.visible] at row

theorem marks_eq (d : Diagnostic) :
    d.marks = List.replicate (d.span.start.column - 1) ' ' ++
      List.replicate (max d.span.width 1) '^' := by
  rw [marks, bar_markRow, markRow_eq]
  rfl

theorem markRow_marks (d : Diagnostic) :
    d.markRow = (List.replicate 5 ' ' ++ ['|', ' ']) ++ d.marks := by
  rw [markRow_eq, marks_eq, List.append_assoc]
  rfl

theorem underlined_eq (d : Diagnostic) :
    d.underlined = ((d.source.line d.span.start.line).drop (d.span.start.column - 1)).take
      (max d.span.width 1) := by
  rw [underlined, marks_eq, aboveCarets_blanks, aboveCarets_carets]

/-- Up to line 9999 the line begins there. -/
theorem aboveCarets_shownRow {d : Diagnostic} (small : d.span.start.line < 10000) :
    aboveCarets (d.shownRow d.span.start.line) d.markRow = d.underlined := by
  have front : d.shownRow d.span.start.line =
      (padNumber d.span.start.line ++ [' ', '|', ' ']) ++ d.source.line d.span.start.line := by
    rw [shownRow_eq, List.append_assoc]
    rfl
  have same : (padNumber d.span.start.line ++ [' ', '|', ' ']).length =
      (List.replicate 5 ' ' ++ ['|', ' ']).length := by
    rw [List.length_append, length_padNumber,
      Nat.sub_eq_zero_of_le ((digits_le_iff _).mpr small)]
    rfl
  rw [markRow_marks, front, aboveCarets_append same (by decide), underlined]

theorem count_markRow (d : Diagnostic) : d.markRow.count '^' = max d.span.width 1 := by
  rw [markRow_eq]
  simp [List.count_replicate]

end Diagnostic

/-- The line of a token has the text of the token between its columns, without the carriage returns
that stand at the end of a comment. A diagnostic about the token has a caret below each of these
characters and one for each carriage return after them, in colour or not. -/
theorem token_is_underlined (s : SourceFile) (tokens : List Token)
    (read : tokenize s.path s.content = .ok tokens) (t : Token) (member : t ∈ tokens)
    (within : t.isEndOfInput = false) :
    t.span.stop.line = t.location.line ∧
      s.covered t.span = Text.dropTrailing '\r' t.value.toList ∧
      (s.covered t.span = t.value.toList ↔ t.value.toList.getLast? ≠ some '\r') ∧
      (t.value.toList.getLast? = some '\r' → t.kind = .comment) ∧
      ∀ d : Diagnostic, d.source = s → d.span = t.span →
        d.underlined = s.covered t.span ∧ d.markRow.count '^' = t.value.length ∧
        (t.location.line < 10000 →
          aboveCarets (d.shownRow t.location.line) d.markRow = s.covered t.span) ∧
        ∀ colour, Style.visible (d.caretRow colour) = d.markRow ++ ['\n'] := by
  obtain ⟨before, ahead, split, location, begins⟩ := begins_of_mem read member within
  have covered := SourceFile.covered_of_begins split location begins
  have valid : 1 ≤ t.location.column := by
    rw [location]
    exact Nat.le_add_right 1 _
  have positive := List.length_pos_iff.mpr begins.ne_nil
  refine ⟨by rw [Token.stop_span begins.ne_nil]; rfl, covered,
    by rw [covered, Text.dropTrailing_eq_self], ?_, ?_⟩
  · intro last
    refine Decidable.byContradiction fun other => ?_
    obtain ⟨c, last', solid⟩ := begins.last other
    rw [last] at last'
    cases last'
    cases solid
  · rintro d rfl region
    have width : max d.span.width 1 = t.value.length := by
      rw [region, Token.width_span begins.ne_nil]
      rw [String.length_toList] at positive
      exact Nat.max_eq_left positive
    have under : d.underlined = d.source.covered t.span := by
      rw [d.underlined_eq, width, region, d.source.covered_span begins.ne_nil valid]
      rfl
    refine ⟨under, by rw [d.count_markRow, width], fun small => ?_, (d.visible_caretRow ·)⟩
    have line : d.span.start.line = t.location.line := congrArg (·.start.line) region
    rw [← under, ← line]
    exact Diagnostic.aboveCarets_shownRow (line ▸ small)

theorem token_of_check (path : Path) (text : String) (test : Token → Bool)
    (found : (tokenize path text).toOption.any (List.any · test) = true) :
    ∃ tokens t, tokenize path text = .ok tokens ∧ t ∈ tokens ∧ test t = true := by
  cases read : tokenize path text with
  | error cause => rw [read] at found; cases found
  | ok tokens =>
    rw [read] at found
    obtain ⟨t, member, passes⟩ := List.any_eq_true.mp found
    exact ⟨tokens, t, rfl, member, passes⟩

/-- A string with a letter of two bytes, on a line that ends in a comment and a carriage return. -/
theorem token_is_underlined_string :
    let s : SourceFile := ⟨.file ⟨"BUILD.shi"⟩, "a = 1\r\nb = \"é\" # π\r\n"⟩
    ∃ tokens t, tokenize s.path s.content = .ok tokens ∧ t ∈ tokens ∧ t.isEndOfInput = false ∧
      t.value = "\"é\"" ∧ s.covered t.span = t.value.toList ∧
      (Diagnostic.ofError s (.unexpectedToken t [])).underlined = t.value.toList := by
  intro s
  obtain ⟨tokens, t, read, member, found⟩ := token_of_check s.path s.content
    (fun t => !t.isEndOfInput && t.value == "\"é\"") (by decide +kernel)
  simp only [Bool.and_eq_true, Bool.not_eq_true', beq_iff_eq] at found
  obtain ⟨_, _, whole, _, marked⟩ := token_is_underlined s tokens read t member found.1
  have last : t.value.toList.getLast? ≠ some '\r' := by
    rw [found.2]
    decide
  have covered := whole.mpr last
  exact ⟨tokens, t, read, member, found.1, found.2, covered, covered ▸ (marked _ rfl rfl).1⟩

/-- A comment before a carriage return has a caret more than the line has characters. -/
theorem comment_outgrows_its_line :
    let s : SourceFile := ⟨.file ⟨"BUILD.shi"⟩, "# c\r\n"⟩
    ∃ tokens t, tokenize s.path s.content = .ok tokens ∧ t ∈ tokens ∧ t.isEndOfInput = false ∧
      s.line t.location.line = "# c".toList ∧ s.covered t.span ≠ t.value.toList ∧
      (Diagnostic.ofComment s t).markRow.count '^' = 4 := by
  intro s
  obtain ⟨tokens, t, read, member, found⟩ := token_of_check s.path s.content
    (fun t => !t.isEndOfInput && s.line t.location.line == "# c".toList &&
      s.covered t.span != t.value.toList && (Diagnostic.ofComment s t).markRow.count '^' == 4)
    (by decide +kernel)
  simp only [Bool.and_eq_true, Bool.not_eq_true', beq_iff_eq, bne_iff_ne, ne_eq] at found
  exact ⟨tokens, t, read, member, found.1.1.1, found.1.1.2, found.1.2, found.2⟩

end ShiFormat
