import Mathlib.Data.List.DropRight
import ShiFormat.SourceFile
import ShiFormat.Proofs.Indentation.Lines
import ShiFormat.Proofs.Lexing.Munch

/-!
The line of a source that holds a token. The lexer counts lines and columns as it passes them, and a
source is cut at its newlines when a line is asked for. Both agree on where a token stands, and the
line has the text of the token there, without the carriage returns at the end of a comment.
-/
namespace ShiFormat

namespace Text

theorem pieces_cons {separator c : Char} (other : c ≠ separator) (rest : List Char) :
    ∃ piece more, pieces separator rest = piece :: more ∧
      pieces separator (c :: rest) = (c :: piece) :: more := by
  rw [pieces, if_neg other]
  cases split : pieces separator rest with
  | nil => exact absurd split (pieces_ne_nil separator rest)
  | cons piece more => exact ⟨piece, more, rfl, rfl⟩

theorem pieces_append (separator : Char) (before after : List Char) :
    pieces separator (before ++ separator :: after) =
      pieces separator before ++ pieces separator after := by
  induction before with
  | nil => simp [pieces]
  | cons c before ih =>
    by_cases same : c = separator
    · simp [pieces, same, ih]
    · obtain ⟨piece, more, split, whole⟩ := pieces_cons same before
      obtain ⟨piece', more', split', whole'⟩ := pieces_cons same (before ++ separator :: after)
      rw [ih, split, List.cons_append] at split'
      cases split'
      rw [List.cons_append, whole, whole', List.cons_append]

theorem length_pieces (separator : Char) (text : List Char) :
    (pieces separator text).length = text.count separator + 1 := by
  induction text with
  | nil => rfl
  | cons c rest ih =>
    by_cases same : c = separator
    · simp [pieces, same, ih]
    · obtain ⟨piece, more, split, whole⟩ := pieces_cons same rest
      have length := congrArg List.length split
      rw [ih, List.length_cons] at length
      rw [whole, List.length_cons, ← length, List.count_cons_of_ne same]

theorem pieces_head (separator : Char) (text : List Char) :
    (pieces separator text)[0]? = some (text.takeWhile (· != separator)) := by
  induction text with
  | nil => rfl
  | cons c rest ih =>
    by_cases same : c = separator
    · simp [pieces, same]
    · obtain ⟨piece, more, split, whole⟩ := pieces_cons same rest
      rw [split, List.getElem?_cons_zero, Option.some_inj] at ih
      simp [whole, same, ← ih]

/-- A text has one piece for each separator before a place, and then the one of that place. -/
theorem pieces_getElem? (separator : Char) (before after : List Char) :
    (pieces separator (before ++ after))[before.count separator]? =
      some (before.rtakeWhile (· != separator) ++ after.takeWhile (· != separator)) := by
  induction before using List.reverseRecOn generalizing after with
  | nil => simpa using pieces_head separator after
  | append_singleton before c ih =>
    rw [List.append_assoc, List.singleton_append, List.count_append]
    by_cases same : c = separator
    · subst same
      rw [pieces_append, List.count_singleton_self, ← length_pieces,
        List.getElem?_append_right (Nat.le_refl _), Nat.sub_self, pieces_head,
        List.rtakeWhile_concat_neg _ _ _ (by simp), List.nil_append]
    · rw [List.count_singleton, if_neg (by simpa using same), Nat.add_zero, ih,
        List.rtakeWhile_concat_pos _ _ _ (by simpa using same), List.append_assoc,
        List.takeWhile_cons_of_pos (by simpa using same), List.singleton_append]

theorem dropTrailing_eq (c : Char) (text : List Char) :
    dropTrailing c text = text.rdropWhile (· == c) := rfl

theorem dropTrailing_append (c : Char) (a b : List Char) :
    dropTrailing c (a ++ b) =
      if (dropTrailing c b).isEmpty then dropTrailing c a else a ++ dropTrailing c b := by
  rw [dropTrailing, List.reverse_append, List.dropWhile_append]
  simp only [dropTrailing, List.isEmpty_reverse]
  split <;> simp

theorem dropTrailing_eq_self {c : Char} {text : List Char} :
    dropTrailing c text = text ↔ text.getLast? ≠ some c := by
  rw [dropTrailing_eq, List.rdropWhile_eq_self_iff]
  cases text using List.reverseRecOn with
  | nil => simp
  | append_singleton front x => simp

end Text

namespace SourceFile

/-- The characters of a line from the first column of a region up to its end column. -/
def covered (s : SourceFile) (region : Span) : List Char :=
  ((s.line region.start.line).take (region.stop.column - 1)).drop (region.start.column - 1)

/-- The line that the characters before reach into. -/
theorem line_lineAfter {s : SourceFile} {before after : List Char}
    (split : s.content.toList = before ++ after) :
    s.line (lineAfter before) = Text.dropTrailing '\r'
      (before.rtakeWhile (· != '\n') ++ after.takeWhile (· != '\n')) := by
  rw [lineAfter, Nat.add_comm, line, split, Text.pieces_getElem?]
  rfl

end SourceFile

namespace Lexeme

/-- Of a token and what follows it on its line, no carriage return is dropped inside the token,
unless the token is a comment that ends the line. -/
theorem Begins.dropTrailing {kind : TokenKind} {value ahead : List Char}
    (h : Begins kind value ahead) :
    ∃ more, Text.dropTrailing '\r' (value ++ ahead.takeWhile (· != '\n')) =
        Text.dropTrailing '\r' value ++ more ∧
      (more = [] ∨ Text.dropTrailing '\r' value = value) := by
  by_cases comment : kind = .comment
  · have stop : ahead.takeWhile (· != '\n') = [] := by
      cases ahead with
      | nil => rfl
      | cons c ahead =>
        have newline := h.ends c rfl
        rw [comment, goesOn] at newline
        simp [newline]
    exact ⟨[], by rw [stop, List.append_nil, List.append_nil], .inl rfl⟩
  · obtain ⟨c, last, solid⟩ := h.last comment
    have whole : Text.dropTrailing '\r' value = value := by
      refine Text.dropTrailing_eq_self.mpr fun same => ?_
      rw [Option.mem_def.mp last, Option.some_inj] at same
      subst same
      cases solid
    refine ⟨Text.dropTrailing '\r' (ahead.takeWhile (· != '\n')), ?_, .inr whole⟩
    rw [Text.dropTrailing_append, whole]
    split
    · next none => rw [List.isEmpty_iff.mp none, List.append_nil]
    · rfl

end Lexeme

/-- Each token that is cut off stands at the place where it was cut. -/
theorem Reached.mem {path : Path} {text before rest : List Char} {tokens : List Token} {t : Token}
    (h : Reached path text tokens before rest) (member : t ∈ tokens) :
    ∃ earlier later, text = earlier ++ (t.value.toList ++ later) ∧
      t.location = placeAfter path earlier ∧ Lexeme.Begins t.kind t.value.toList later := by
  induction h with
  | start => cases member
  | @token tokens before gap value rest kind reached blank longest ih =>
    rcases List.mem_append.mp member with earlier | last
    · exact ih earlier
    · rw [List.mem_singleton.mp last, String.toList_ofList]
      refine ⟨before ++ gap, rest, ?_, rfl, longest.begins⟩
      rw [reached.split, List.append_assoc]

theorem begins_of_mem {path : Path} {text : String} {tokens : List Token} {t : Token}
    (read : tokenize path text = .ok tokens) (member : t ∈ tokens)
    (within : t.isEndOfInput = false) :
    ∃ before ahead, text.toList = before ++ (t.value.toList ++ ahead) ∧
      t.location = placeAfter path before ∧ Lexeme.Begins t.kind t.value.toList ahead := by
  obtain ⟨cut, ⟨_, _, reached, _⟩, rfl⟩ := cutUp_of_tokenize read
  rcases List.mem_append.mp member with inside | last
  · exact reached.mem inside
  · rw [List.mem_singleton.mp last] at within
    cases within

/-- The columns of a token count its characters. -/
theorem Token.stop_span {t : Token} (some : t.value.toList ≠ []) :
    t.span.stop = t.location.shifted t.value.length := by
  have positive := List.length_pos_iff.mpr some
  rw [String.length_toList] at positive
  exact congrArg t.location.shifted (Nat.max_eq_left positive)

theorem Token.width_span {t : Token} (some : t.value.toList ≠ []) :
    t.span.width = t.value.length := by
  have start : t.span.start = t.location := rfl
  simp [Span.width, start, stop_span some, Location.shifted]

theorem SourceFile.covered_span {t : Token} (s : SourceFile) (some : t.value.toList ≠ [])
    (valid : 1 ≤ t.location.column) :
    s.covered t.span =
      ((s.line t.location.line).drop (t.location.column - 1)).take t.value.length := by
  have columns : t.location.column + t.value.length - 1 - (t.location.column - 1) =
      t.value.length := by omega
  rw [covered, Token.stop_span some, List.drop_take]
  exact congrArg (List.take · _) columns

/-- Between the columns of a token its line has the text of the token, without the carriage returns
at its end. -/
theorem SourceFile.covered_of_begins {s : SourceFile} {path : Path} {t : Token}
    {before ahead : List Char} (split : s.content.toList = before ++ (t.value.toList ++ ahead))
    (location : t.location = placeAfter path before)
    (begins : Lexeme.Begins t.kind t.value.toList ahead) :
    s.covered t.span = Text.dropTrailing '\r' t.value.toList := by
  obtain ⟨more, shown, whole⟩ := begins.dropTrailing
  let lead := before.rtakeWhile (· != '\n')
  have plain : ∀ x ∈ t.value.toList, (x != '\n') = true := bne_newline begins.isToken.plain
  have some : Text.dropTrailing '\r' t.value.toList ++ more ≠ [] := by
    obtain ⟨c, rest, value, solid⟩ := begins.not_blank
    refine List.append_ne_nil_of_left_ne_nil (fun none => ?_) more
    rw [Text.dropTrailing_eq, List.rdropWhile_eq_nil_iff] at none
    have same : c = '\r' := by simpa using none c (by simp [value])
    subst same
    cases solid
  have line : s.line t.location.line = lead ++ (Text.dropTrailing '\r' t.value.toList ++ more) := by
    rw [location, placeAfter, line_lineAfter split, List.takeWhile_append_of_pos plain,
      Text.dropTrailing_append, shown, if_neg (by simpa using some)]
  have column : t.location.column = lead.length + 1 := by
    rw [location, placeAfter, columnAfter, Nat.add_comm]
    exact congrArg (· + 1) List.length_reverse.symm
  rw [s.covered_span begins.ne_nil (by omega), line, column, Nat.add_sub_cancel, List.drop_left,
    ← String.length_toList]
  rcases whole with rfl | kept
  · have shorter := (List.rdropWhile_prefix (· == '\r') t.value.toList).length_le
    rw [List.append_nil, Text.dropTrailing_eq, List.take_of_length_le shorter]
  · rw [kept, List.take_left]

end ShiFormat
