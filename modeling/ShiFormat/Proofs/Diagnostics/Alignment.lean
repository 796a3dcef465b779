import ShiFormat.Diagnostic
import ShiFormat.Proofs.Diagnostics.SourceLine

/-!
The columns of an uncoloured diagnostic. The numbers of its lines are padded to four columns and its
caret row begins with five spaces, so the bars of all rows stand below each other as long as no
number is longer than that. From line 10000 on the bars and the carets part.
-/
namespace ShiFormat

namespace Text

theorem not_mem_of_pieces {separator : Char} {text piece : List Char}
    (member : piece ∈ pieces separator text) : separator ∉ piece := by
  induction text generalizing piece with
  | nil => simp_all [pieces]
  | cons c rest ih =>
    by_cases same : c = separator
    · rw [pieces, if_pos same, List.mem_cons] at member
      rcases member with rfl | later
      · exact List.not_mem_nil
      · exact ih later
    · obtain ⟨first, more, split, whole⟩ := pieces_cons same rest
      rw [whole, List.mem_cons] at member
      rw [split] at ih
      rcases member with rfl | later
      · rw [List.mem_cons, not_or]
        exact ⟨Ne.symm same, ih List.mem_cons_self⟩
      · exact ih (List.mem_cons_of_mem first later)

theorem lines_newline (before after : List Char) :
    lines (before ++ '\n' :: after) = lines (before ++ ['\n']) ++ lines after := by
  rw [lines, lines, lines, pieces_append, pieces_append,
    List.dropLast_append_of_ne_nil (pieces_ne_nil '\n' after)]
  simp [pieces]

end Text

theorem SourceFile.single_line (s : SourceFile) (number : Nat) : '\n' ∉ s.line number := by
  cases number with
  | zero => exact List.not_mem_nil
  | succ n =>
    rw [line]
    cases found : (Text.pieces '\n' s.content.toList)[n]? with
    | none => exact List.not_mem_nil
    | some piece =>
      have single := Text.not_mem_of_pieces (List.mem_of_getElem? found)
      exact fun newline => single ((List.rdropWhile_prefix (· == '\r') piece).subset newline)

namespace Diagnostic

/-- The lines shown above the carets: the one before the line of the region, if there is one, and
that line. -/
def above (d : Diagnostic) : List Nat :=
  let line := d.span.start.line
  if 1 < line then [line - 1, line] else [line]

/-- The line shown below the carets, if it is not empty. -/
def below (d : Diagnostic) : List Nat :=
  let line := d.span.start.line
  if (d.source.line (line + 1)).isEmpty then [] else [line + 1]

/-- The row of a line of the source, without colour and up to its newline. -/
def shownRow (d : Diagnostic) (number : Nat) : List Char := (d.sourceRow false number).dropLast

/-- The row of the carets, without colour and up to its newline. -/
def markRow (d : Diagnostic) : List Char := (d.caretRow false).dropLast

theorem shownRow_newline (d : Diagnostic) (number : Nat) :
    d.sourceRow false number = d.shownRow number ++ ['\n'] := by
  rw [shownRow, sourceRow, List.dropLast_concat]

theorem markRow_newline (d : Diagnostic) : d.caretRow false = d.markRow ++ ['\n'] := by
  rw [markRow, caretRow, List.dropLast_concat]

theorem shownRow_eq (d : Diagnostic) (number : Nat) :
    d.shownRow number = padNumber number ++ ' ' :: '|' :: ' ' :: d.source.line number := by
  rw [shownRow, sourceRow, List.dropLast_concat]
  simp [bar, Style.paint]

theorem markRow_eq (d : Diagnostic) :
    d.markRow = List.replicate 5 ' ' ++ '|' :: ' ' ::
      (List.replicate (d.span.start.column - 1) ' ' ++
        List.replicate (max d.span.width 1) '^') := by
  rw [markRow, caretRow, List.dropLast_concat]
  simp [bar, Style.paint]

theorem isDigit_toString {number : Nat} {c : Char} (member : c ∈ (toString number).toList) :
    c.isDigit := by
  rw [Nat.toString_eq_repr, Nat.toList_repr] at member
  exact Nat.isDigit_of_mem_toDigits (by decide) (by decide) member

theorem digits_le_iff (number : Nat) : (toString number).length ≤ 4 ↔ number < 10000 := by
  rw [← String.length_toList, Nat.toString_eq_repr, Nat.toList_repr]
  exact Nat.length_toDigits_le_iff (by decide) (by decide)

theorem not_mem_padNumber (c : Char) (number : Nat) (space : c ≠ ' ') (digit : c.isDigit = false) :
    c ∉ padNumber number := by
  intro member
  rcases List.mem_append.mp member with padding | digits
  · exact space (List.mem_replicate.mp padding).2
  · rw [isDigit_toString digits] at digit
    cases digit

theorem length_padNumber (number : Nat) :
    (padNumber number).length = 4 + ((toString number).length - 4) := by
  rw [padNumber, List.length_append, List.length_replicate, String.length_toList]
  omega

theorem bar_shownRow (d : Diagnostic) (number : Nat) :
    (d.shownRow number).idxOf '|' = 5 + ((toString number).length - 4) := by
  have plain := not_mem_padNumber '|' number (by decide) (by decide)
  have next : (' ' :: '|' :: ' ' :: d.source.line number).idxOf '|' = 1 := rfl
  rw [shownRow_eq, List.idxOf_append_of_notMem plain, length_padNumber, next]
  omega

theorem bar_markRow (d : Diagnostic) : d.markRow.idxOf '|' = 5 := by
  rw [markRow_eq]
  rfl

/-- The first caret stands behind the bar, a space, and one space for each column before it. -/
theorem caret_markRow {d : Diagnostic} (valid : 1 ≤ d.span.start.column) :
    d.markRow.idxOf '^' = 6 + d.span.start.column ∧
      d.markRow[6 + d.span.start.column]? = some '^' := by
  obtain ⟨more, carets⟩ : ∃ more, max d.span.width 1 = more + 1 :=
    ⟨max d.span.width 1 - 1, by omega⟩
  let lead := List.replicate 5 ' ' ++ '|' :: ' ' :: List.replicate (d.span.start.column - 1) ' '
  have row : d.markRow = lead ++ '^' :: List.replicate more '^' := by
    rw [markRow_eq, carets]
    simp [lead, List.replicate_succ]
  have plain : '^' ∉ lead := by simp [lead]
  have length : lead.length = 6 + d.span.start.column := by
    simp [lead]
    omega
  rw [row, List.idxOf_append_of_notMem plain, ← length]
  simp

/-- Behind the bar and a space each row shows its line. -/
theorem getElem?_shownRow (d : Diagnostic) (number offset : Nat) :
    (d.shownRow number)[(d.shownRow number).idxOf '|' + 2 + offset]? =
      (d.source.line number)[offset]? := by
  have length : (padNumber number ++ [' ', '|', ' ']).length =
      (d.shownRow number).idxOf '|' + 2 := by
    rw [bar_shownRow, List.length_append, length_padNumber]
    simp
    omega
  have row : d.shownRow number = (padNumber number ++ [' ', '|', ' ']) ++ d.source.line number := by
    rw [shownRow_eq]
    simp
  rw [← length, row, List.getElem?_append_right (Nat.le_add_right ..), Nat.add_sub_cancel_left]

theorem single_shownRow (d : Diagnostic) (number : Nat) : '\n' ∉ d.shownRow number := by
  have plain := not_mem_padNumber '\n' number (by decide) (by decide)
  have line := d.source.single_line number
  simp [shownRow_eq, plain, line]

theorem single_markRow (d : Diagnostic) : '\n' ∉ d.markRow := by
  simp [markRow_eq]

theorem render_eq (d : Diagnostic) :
    d.render false = d.headRow false ++ d.pointerRow false ++
      Text.unlines (d.above.map d.shownRow ++ d.markRow :: d.below.map d.shownRow) := by
  simp only [render, shownRow_newline, markRow_newline, above, below]
  split <;> split <;> simp [Text.unlines]

/-- Behind the message and the place, the rows of a diagnostic are those of the lines above, of the
carets, and of the line below. -/
theorem lines_render (d : Diagnostic) :
    Text.lines (d.render false) = Text.lines (d.headRow false ++ d.pointerRow false) ++
      (d.above.map d.shownRow ++ d.markRow :: d.below.map d.shownRow) := by
  obtain ⟨front, split⟩ : ∃ front, d.headRow false ++ d.pointerRow false = front ++ ['\n'] :=
    ⟨_, (List.append_assoc ..).symm⟩
  have single : ∀ row ∈ d.above.map d.shownRow ++ d.markRow :: d.below.map d.shownRow,
      '\n' ∉ row := by
    intro row member
    simp only [List.mem_append, List.mem_map, List.mem_cons] at member
    rcases member with ⟨number, _, rfl⟩ | rfl | ⟨number, _, rfl⟩
    · exact d.single_shownRow number
    · exact d.single_markRow
    · exact d.single_shownRow number
  rw [render_eq, split, List.append_assoc, List.singleton_append, Text.lines_newline,
    Text.lines_unlines single]

end Diagnostic

/-- The rows of the lines have their bars where the caret row has its bar exactly up to line 9999,
and so the first caret stands below the first character of the region. A longer number moves the
bar and the line to the right, by one column for each further digit. -/
theorem bars_aligned_iff (d : Diagnostic) (valid : 1 ≤ d.span.start.column) :
    Text.lines (d.render false) = Text.lines (d.headRow false ++ d.pointerRow false) ++
        (d.above.map d.shownRow ++ d.markRow :: d.below.map d.shownRow) ∧
      (∀ number ∈ d.above ++ d.below,
        (d.shownRow number).idxOf '|' = d.markRow.idxOf '|' + ((toString number).length - 4) ∧
        ((d.shownRow number).idxOf '|' = d.markRow.idxOf '|' ↔ number < 10000)) ∧
      d.markRow[d.markRow.idxOf '^']? = some '^' ∧
      (d.shownRow d.span.start.line)[d.markRow.idxOf '^' +
          ((toString d.span.start.line).length - 4)]? =
        (d.source.line d.span.start.line)[d.span.start.column - 1]? ∧
      (d.span.start.line < 10000 → (d.shownRow d.span.start.line)[d.markRow.idxOf '^']? =
        (d.source.line d.span.start.line)[d.span.start.column - 1]?) := by
  obtain ⟨first, caret⟩ := Diagnostic.caret_markRow valid
  have below : (d.shownRow d.span.start.line)[d.markRow.idxOf '^' +
      ((toString d.span.start.line).length - 4)]? =
        (d.source.line d.span.start.line)[d.span.start.column - 1]? := by
    rw [← d.getElem?_shownRow, d.bar_shownRow, first]
    congr 1
    omega
  refine ⟨d.lines_render, fun number _ => ⟨?_, ?_⟩, first ▸ caret, below, fun small => ?_⟩
  · rw [d.bar_shownRow, d.bar_markRow]
  · rw [d.bar_shownRow, d.bar_markRow, ← Diagnostic.digits_le_iff]
    omega
  · rw [← below, Nat.sub_eq_zero_of_le ((Diagnostic.digits_le_iff _).mpr small), Nat.add_zero]

/-- A parenthesis that closes nothing, with a line before and a line after it. -/
theorem bars_aligned_iff_second_line :
    let source : SourceFile := ⟨.file ⟨"BUILD.shi"⟩, "a = 1\nb ) 2\nc = 3\n"⟩
    let span := Span.across ⟨some source.path, 2, 3⟩ 1
    let d : Diagnostic := ⟨"unexpected token", source, span, .error⟩
    1 ≤ d.span.start.column ∧ d.above ++ d.below = [1, 2, 3] ∧
      (∀ number ∈ d.above ++ d.below, (d.shownRow number).idxOf '|' = d.markRow.idxOf '|') ∧
      (d.shownRow 2)[d.markRow.idxOf '^']? = some ')' := by
  intro source span d
  have shown : d.above ++ d.below = [1, 2, 3] := by decide +kernel
  have character : (source.line 2)[2]? = some ')' := by decide +kernel
  obtain ⟨_, bars, _, _, below⟩ := bars_aligned_iff d (by decide)
  refine ⟨by decide, shown, fun number member => (bars number member).2.mpr ?_, ?_⟩
  · rw [shown] at member
    revert number
    decide
  · exact (below (by decide)).trans character

/-- Behind ten thousand newlines the bar of the caret row stands to the left of the other bars. -/
theorem bars_part_behind_line_9999 :
    let content := String.ofList (List.replicate 10000 '\n' ++ [')'])
    let source : SourceFile := ⟨.file ⟨"BUILD.shi"⟩, content⟩
    let span := Span.across ⟨some source.path, 10001, 1⟩ 1
    let d : Diagnostic := ⟨"unexpected token", source, span, .error⟩
    '\n' ∉ d.message.toList ∧ 1 ≤ d.span.start.line ∧ 1 ≤ d.span.start.column ∧
      10001 ∈ d.above ++ d.below ∧ (d.shownRow 10001).idxOf '|' = 6 ∧ d.markRow.idxOf '|' = 5 := by
  intro content source span d
  refine ⟨by decide, by decide, by decide, ?_, ?_, d.bar_markRow⟩
  · exact List.mem_append_left _ (by simp [d, span, Diagnostic.above, Span.across])
  · rw [d.bar_shownRow]
    decide

end ShiFormat
