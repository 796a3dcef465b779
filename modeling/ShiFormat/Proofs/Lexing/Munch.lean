import ShiFormat.Proofs.Lexing.Longest
import ShiFormat.Proofs.Lexing.Reading

/-!
The lexer cuts a text from its start: blanks are skipped, and the longest token ahead is cut off,
again and again. The positions so reached, and what is wrong at one where no token stands, are
stated on the text alone. The lexer yields exactly these tokens, and fails exactly there.
-/
namespace ShiFormat
open Lexeme

/-- Cut from its start, the text falls into these tokens, with all of `before` passed and all of
`rest` still ahead. -/
inductive Reached (path : Path) (text : List Char) : List Token → List Char → List Char → Prop where
  | start : Reached path text [] [] text
  | token {tokens : List Token} {before gap value rest : List Char} {kind : TokenKind}
    (reached : Reached path text tokens before (gap ++ (value ++ rest)))
    (blank : ∀ x ∈ gap, Cursor.isBlank x) (longest : Longest kind value (value ++ rest)) :
    Reached path text
      (tokens ++ [⟨kind, String.ofList value, placeAfter path (before ++ gap)⟩])
      (before ++ gap ++ value) rest

/-- What is wrong where no token stands: a character that begins none, or a string that is not
closed on its line or in its text. -/
inductive Refuses (path : Path) (before : List Char) : List Char → SourceError → Prop where
  | stray {c : Char} {more : List Char} (other : c ≠ '"') :
    Refuses path before (c :: more) (.unexpectedSymbol c (placeAfter path before) [])
  | unclosedLine {body more : List Char} (plain : '\n' ∉ body) :
    Refuses path before ('"' :: (body ++ '\n' :: more))
      (.unexpectedSymbol '\n' (placeAfter path (before ++ '"' :: body)) ['"'])
  | unclosedText {body : List Char} (plain : '\n' ∉ body) :
    Refuses path before ('"' :: body)
      (.unexpectedSymbol '\x00' (placeAfter path (before ++ '"' :: body)) ['"'])

/-- No token stands at the front of the text. -/
def NoToken (text : List Char) : Prop := ∀ kind value, value <+: text → ¬ IsToken kind value

namespace Lexeme

theorem first_stray {text : List Char} {c : Char} (read : first text = .stray c) :
    c ≠ '"' ∧ ∃ more, text = c :: more := by
  cases text with
  | nil => cases read
  | cons d rest =>
    simp only [first] at read
    repeat' split at read
    all_goals cases read
    next other _ _ => exact ⟨other, rest, rfl⟩

/-- An unclosed string reaches up to the end of its line. -/
theorem first_unclosed {text : List Char} {n : Nat} (read : first text = .unclosed n) :
    ∃ body ahead, text = '"' :: (body ++ ahead) ∧ n = body.length + 1 ∧ '\n' ∉ body ∧
      ∀ x ∈ ahead.head?, x = '\n' := by
  cases text with
  | nil => cases read
  | cons d rest =>
    simp only [first] at read
    repeat' split at read
    all_goals cases read
    next quote opened =>
      refine ⟨rest.takeWhile insideString, rest.dropWhile insideString, ?_, rfl, ?_, ?_⟩
      · rw [quote, List.takeWhile_append_dropWhile]
      · intro newline
        have inside := List.all_eq_true.mp List.all_takeWhile '\n' newline
        simp [insideString] at inside
      · intro x head
        have stop := List.head?_dropWhile_not insideString rest
        rw [Option.mem_def.mp head] at stop opened
        refine Decidable.byContradiction fun other => opened ?_
        simpa [insideString, other] using stop

theorem noToken_iff {text : List Char} :
    NoToken text ↔ ∀ kind n, first text ≠ .token kind n := by
  constructor
  · intro none kind n read
    obtain ⟨value, ahead, rfl, _, longest⟩ := longest_of_first read
    exact none kind value longest.front longest.token
  · rintro none kind value ⟨ahead, rfl⟩ token
    obtain ⟨found, n, read, _⟩ := token.covered ahead
    exact none found n read

theorem token_or_none (text : List Char) :
    (∃ kind n, first text = .token kind n) ∨ NoToken text := by
  cases read : first text with
  | token kind n => exact .inl ⟨kind, n, rfl⟩
  | unclosed _ | stray _ | endOfInput =>
    right
    rw [noToken_iff, read]
    simp

/-- Up to its newline or its end, a text has one line. -/
theorem line_unique {body other ahead more : List Char} (plain : '\n' ∉ body)
    (plain' : '\n' ∉ other) (stop : ∀ x ∈ ahead.head?, x = '\n')
    (stop' : ∀ x ∈ more.head?, x = '\n') (same : body ++ ahead = other ++ more) :
    body = other ∧ ahead = more := by
  have line : ∀ {body ahead : List Char}, '\n' ∉ body → (∀ x ∈ ahead.head?, x = '\n') →
      (body ++ ahead).takeWhile (· != '\n') = body := by
    intro body ahead plain stop
    rw [List.takeWhile_append_of_pos (bne_newline plain)]
    cases ahead with
    | nil => simp
    | cons x ahead => simp [stop x rfl]
  have bodies : body = other := by rw [← line plain stop, same, line plain' stop']
  subst bodies
  exact ⟨rfl, List.append_cancel_left same⟩

theorem first_of_stray {c : Char} {more : List Char} (none : NoToken (c :: more))
    (other : c ≠ '"') : first (c :: more) = .stray c := by
  have miss := noToken_iff.mp none
  cases read : first (c :: more) with
  | token kind n => exact absurd read (miss kind n)
  | endOfInput => exact absurd (first_end read) (List.cons_ne_nil _ _)
  | stray symbol =>
    obtain ⟨_, rest, same⟩ := first_stray read
    rw [(List.cons.inj same).1]
  | unclosed n =>
    obtain ⟨body, ahead, same, _⟩ := first_unclosed read
    exact absurd (List.cons.inj same).1 other

theorem first_of_unclosed {body ahead : List Char} (none : NoToken ('"' :: (body ++ ahead)))
    (plain : '\n' ∉ body) (stop : ∀ x ∈ ahead.head?, x = '\n') :
    first ('"' :: (body ++ ahead)) = .unclosed (body.length + 1) := by
  have miss := noToken_iff.mp none
  cases read : first ('"' :: (body ++ ahead)) with
  | token kind n => exact absurd read (miss kind n)
  | endOfInput => exact absurd (first_end read) (List.cons_ne_nil _ _)
  | stray symbol =>
    obtain ⟨other, rest, same⟩ := first_stray read
    exact absurd (List.cons.inj same).1.symm other
  | unclosed n =>
    obtain ⟨body', ahead', same, rfl, plain', stop'⟩ := first_unclosed read
    obtain ⟨rfl, _⟩ := line_unique plain plain' stop stop' (List.cons.inj same).2
    rfl

end Lexeme

section
variable {path : Path} {text before gap rest : List Char} {tokens : List Token} {c : Cursor}
  {error : SourceError}

theorem Reached.split (h : Reached path text tokens before rest) : text = before ++ rest := by
  induction h with
  | start => rfl
  | token _ _ _ ih => simpa using ih

/-- At a position that is reached, the lexer has the tokens cut off before it, and goes on from
there. -/
theorem Reached.run (h : Reached path text tokens before rest) :
    ∃ c : Cursor, c.Passed before ∧ c.rest = rest ∧
      tokensFrom path (Cursor.atStart text) = (tokensFrom path c).map (tokens ++ ·) := by
  induction h with
  | start => exact ⟨_, .start text, rfl, by cases tokensFrom path _ <;> rfl⟩
  | @token tokens before gap value rest kind _ blank longest ih =>
    obtain ⟨c, passed, ahead, run⟩ := ih
    obtain ⟨skipped, left⟩ := passed.skipBlanks ahead blank (longest.token.solid rest)
    have taken : c.skipBlanks.rest.take value.length = value := by rw [left, List.take_left]
    have moved := skipped.advanceBy (n := value.length) (by rw [taken]; exact longest.token.plain)
    have read : first c.skipBlanks.rest = .token kind value.length := by
      rw [left]
      exact longest.first
    refine ⟨_, by simpa [taken] using moved, ?_, ?_⟩
    · rw [Cursor.rest_advanceBy, left, List.drop_left]
    · rw [run, tokensFrom_token read, taken, Token.ofText, longest.token.begins.spelling,
        skipped.location]
      cases tokensFrom path (c.skipBlanks.advanceBy value.length) with
      | ok more => simp [Except.map]
      | error error => rfl

/-- Some blanks and one token further. -/
theorem Reached.cut (h : Reached path text tokens before rest) (kind : TokenKind)
    (gap value after : String) (split : rest = gap.toList ++ (value.toList ++ after.toList))
    (blank : gap.toList.all Cursor.isBlank)
    (read : first (value.toList ++ after.toList) = .token kind value.toList.length) :
    ∃ tokens before, Reached path text tokens before after.toList := by
  subst split
  obtain ⟨value', ahead, same, length, longest⟩ := longest_of_first read
  obtain ⟨rfl, rfl⟩ := List.append_inj same length
  exact ⟨_, _, h.token (List.all_eq_true.mp blank) longest⟩

theorem tokens_of_reached (h : Reached path text tokens before gap)
    (blank : ∀ x ∈ gap, Cursor.isBlank x) :
    tokensFrom path (Cursor.atStart text) =
      .ok (tokens ++ [Token.endOfInput (placeAfter path text)]) := by
  obtain ⟨c, passed, ahead, run⟩ := h.run
  obtain ⟨skipped, left⟩ :=
    passed.skipBlanks (ahead.trans (List.append_nil gap).symm) blank (by simp)
  rw [run, tokensFrom_end (by rw [left]; rfl), skipped.location, h.split]
  rfl

theorem refused_unclosed (body ahead : List Char) (skipped : c.skipBlanks.Passed before)
    (left : c.skipBlanks.rest = '"' :: (body ++ ahead)) (none : NoToken c.skipBlanks.rest)
    (plain : '\n' ∉ body) (stop : ∀ x ∈ ahead.head?, x = '\n') :
    tokensFrom path c = .error (.unexpectedSymbol (ahead.headD '\x00')
      (placeAfter path (before ++ '"' :: body)) ['"']) := by
  have read : first c.skipBlanks.rest = .unclosed (body.length + 1) := by
    rw [left] at none ⊢
    exact first_of_unclosed none plain stop
  have taken : c.skipBlanks.rest.take (body.length + 1) = '"' :: body := by simp [left]
  have no_newline : '\n' ∉ c.skipBlanks.rest.take (body.length + 1) := by
    rw [taken]
    simpa using plain
  have moved := skipped.advanceBy no_newline
  rw [tokensFrom_unclosed read, moved.location, taken]
  simp [Cursor.peek, Cursor.rest_advanceBy, left]

/-- Where no token stands, the lexer finds what the text alone says is wrong. -/
theorem refused_of_none (passed : c.Passed before) (ahead : c.rest = gap ++ rest)
    (blank : ∀ x ∈ gap, Cursor.isBlank x) (solid : ∀ x ∈ rest.head?, Cursor.isBlank x = false)
    (none : NoToken rest) (wrong : Refuses path (before ++ gap) rest error) :
    tokensFrom path c = .error error := by
  obtain ⟨skipped, left⟩ := passed.skipBlanks ahead blank solid
  have none_left : NoToken c.skipBlanks.rest := left ▸ none
  cases wrong with
  | stray other =>
    have read := first_of_stray none other
    rw [← left] at read
    rw [tokensFrom_stray read, skipped.location]
  | @unclosedLine body more plain =>
    exact refused_unclosed body ('\n' :: more) skipped left none_left plain (by simp)
  | @unclosedText body plain =>
    exact refused_unclosed body [] skipped (by simpa using left) none_left plain (by simp)

end

/-- The text is cut to its end into these tokens. -/
def CutUp (path : Path) (text : List Char) (tokens : List Token) : Prop :=
  ∃ before gap, Reached path text tokens before gap ∧ ∀ x ∈ gap, Cursor.isBlank x

/-- At a position that is reached, with the blanks skipped, something is left but no token stands
there, and this is wrong with it. -/
def Stuck (path : Path) (text : List Char) (error : SourceError) : Prop :=
  ∃ tokens before gap rest, Reached path text tokens before (gap ++ rest) ∧
    (∀ x ∈ gap, Cursor.isBlank x) ∧ (∀ x ∈ rest.head?, Cursor.isBlank x = false) ∧
    rest ≠ [] ∧ NoToken rest ∧ Refuses path (before ++ gap) rest error

section
variable {path : Path} {text before rest : List Char} {tokens : List Token} {error : SourceError}

theorem CutUp.run (cut : CutUp path text tokens) :
    tokensFrom path (Cursor.atStart text) =
      .ok (tokens ++ [Token.endOfInput (placeAfter path text)]) := by
  obtain ⟨before, gap, reached, blank⟩ := cut
  exact tokens_of_reached reached blank

theorem Stuck.run (stuck : Stuck path text error) :
    tokensFrom path (Cursor.atStart text) = .error error := by
  obtain ⟨tokens, before, gap, rest, reached, blank, solid, _, none, wrong⟩ := stuck
  obtain ⟨c, passed, ahead, run⟩ := reached.run
  rw [run, refused_of_none passed ahead blank solid none wrong]
  rfl

/-- Something is wrong wherever no token stands. -/
theorem refuses_of_none (path : Path) (before : List Char) {rest : List Char}
    (some : rest ≠ []) (none : NoToken rest) : ∃ error, Refuses path before rest error := by
  cases read : first rest with
  | token kind n => exact absurd read (noToken_iff.mp none kind n)
  | endOfInput => exact absurd (first_end read) some
  | stray c =>
    obtain ⟨other, more, rfl⟩ := first_stray read
    exact ⟨_, .stray other⟩
  | unclosed n =>
    obtain ⟨body, ahead, rfl, _, plain, stop⟩ := first_unclosed read
    cases ahead with
    | nil => exact ⟨_, by simpa using Refuses.unclosedText plain⟩
    | cons x ahead =>
      cases stop x rfl
      exact ⟨_, .unclosedLine plain⟩

/-- From any position that is reached, the text is cut further: to its end, or until it is
stuck. -/
theorem Reached.outcome (h : Reached path text tokens before rest) :
    (∃ tokens, CutUp path text tokens) ∨ ∃ error, Stuck path text error := by
  induction size : rest.length using Nat.strongRecOn generalizing tokens before rest with
  | ind size ih =>
    have skipped : rest.takeWhile Cursor.isBlank ++ rest.dropWhile Cursor.isBlank = rest :=
      List.takeWhile_append_dropWhile
    have blank : ∀ x ∈ rest.takeWhile Cursor.isBlank, Cursor.isBlank x :=
      List.all_eq_true.mp List.all_takeWhile
    have solid : ∀ x ∈ (rest.dropWhile Cursor.isBlank).head?, Cursor.isBlank x = false := by
      intro x head
      have stop := List.head?_dropWhile_not Cursor.isBlank rest
      rw [Option.mem_def.mp head] at stop
      simpa using stop
    generalize rest.takeWhile Cursor.isBlank = gap at skipped blank
    generalize rest.dropWhile Cursor.isBlank = ahead at skipped solid
    subst skipped
    rcases token_or_none ahead with ⟨kind, n, read⟩ | none
    · obtain ⟨value, after, rfl, rfl, longest⟩ := longest_of_first read
      have positive := (first_length_pos read).1
      refine ih after.length ?_ (h.token blank longest) rfl
      rw [← size, List.length_append, List.length_append]
      omega
    · by_cases finished : ahead = []
      · subst finished
        rw [List.append_nil] at h
        exact .inl ⟨tokens, before, gap, h, blank⟩
      · obtain ⟨error, wrong⟩ := refuses_of_none path (before ++ gap) finished none
        exact .inr ⟨error, tokens, before, gap, ahead, h, blank, solid, finished, none, wrong⟩

/-- A NUL that stands in a text begins no token. -/
theorem noToken_nul (rest : List Char) : NoToken ('\x00' :: rest) := by
  rintro kind value ⟨ahead, front⟩ token
  have head : value.head? = some '\x00' := by
    cases value with
    | nil => exact absurd rfl token.begins.ne_nil
    | cons c value => rw [(List.cons.inj front).1]; rfl
  cases token with
  | symbol spelled noWord =>
    have table : ∀ entry ∈ spellings, entry.1.head? ≠ some '\x00' := by decide
    exact table _ (mem_spellings spelled noWord) head
  | integer _ all => exact absurd (all _ (List.mem_of_head? head)) (by decide)
  | word first _ =>
    cases Option.some.inj head
    exact absurd first (by decide)
  | string _ | comment _ => cases Option.some.inj head

end

section
variable {path : Path} {text : String}

theorem cutUp_or_stuck (path : Path) (text : List Char) :
    (∃ tokens, CutUp path text tokens) ∨ ∃ error, Stuck path text error := by
  have nothing_cut : Reached path text [] [] text := .start
  exact nothing_cut.outcome

/-- The lexer cuts every accepted text to its end. -/
theorem cutUp_of_tokenize {tokens : List Token} (read : tokenize path text = .ok tokens) :
    ∃ cut, CutUp path text.toList cut ∧
      tokens = cut ++ [Token.endOfInput (placeAfter path text.toList)] := by
  unfold tokenize at read
  rcases cutUp_or_stuck path text.toList with ⟨cut, whole⟩ | ⟨error, stuck⟩
  · rw [whole.run] at read
    exact ⟨cut, whole, (Except.ok.inj read).symm⟩
  · rw [stuck.run] at read
    cases read

/-- The lexer fails only where it is stuck. -/
theorem stuck_of_tokenize {error : SourceError} (refused : tokenize path text = .error error) :
    Stuck path text.toList error := by
  unfold tokenize at refused
  rcases cutUp_or_stuck path text.toList with ⟨cut, whole⟩ | ⟨error, stuck⟩
  · rw [whole.run] at refused
    cases refused
  · rw [stuck.run] at refused
    cases refused
    exact stuck

end

/-- The lexer yields the longest tokens of a text and the end of the input, and it fails exactly
where the text is stuck, with what is wrong there. A NUL in a text is a character like others. -/
theorem tokens_are_longest (path : Path) (text : String) :
    (∀ tokens, tokenize path text = .ok tokens ↔ ∃ cut, CutUp path text.toList cut ∧
      tokens = cut ++ [Token.endOfInput (placeAfter path text.toList)]) ∧
    (∀ error, tokenize path text = .error error ↔ Stuck path text.toList error) ∧
    ∀ tokens before gap rest, Reached path text.toList tokens before (gap ++ '\x00' :: rest) →
      (∀ x ∈ gap, Cursor.isBlank x) →
      tokenize path text =
        .error (.unexpectedSymbol '\x00' (placeAfter path (before ++ gap)) []) := by
  refine ⟨fun tokens => ⟨cutUp_of_tokenize, ?_⟩, fun error => ⟨stuck_of_tokenize, Stuck.run⟩, ?_⟩
  · rintro ⟨cut, whole, rfl⟩
    exact whole.run
  · intro tokens before gap rest reached blank
    have solid : ∀ x ∈ ('\x00' :: rest).head?, Cursor.isBlank x = false := by
      intro x head
      cases Option.some.inj head
      decide
    have stray : Refuses path (before ++ gap) ('\x00' :: rest) _ := .stray (by decide)
    apply Stuck.run
    exact ⟨tokens, before, gap, '\x00' :: rest, reached, blank, solid, List.cons_ne_nil _ _,
      noToken_nul rest, stray⟩

end ShiFormat
