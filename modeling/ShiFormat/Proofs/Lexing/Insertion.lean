import ShiFormat.Proofs.Lexing.Comments

/-!
Blanks and whole comments put into a text where no token is cut. The lexer finds the same tokens
around them. A comment that they are put behind takes in the rest of its line.
-/
namespace ShiFormat
open Lexeme

/-- Blanks, and comments with the newline that ends them. -/
inductive IsFiller : List Char → Prop where
  | nil : IsFiller []
  | blank {x : Char} {more : List Char} (blank : Cursor.isBlank x) (later : IsFiller more) :
    IsFiller (x :: more)
  | comment {body more : List Char} (plain : '\n' ∉ body) (later : IsFiller more) :
    IsFiller ('#' :: (body ++ '\n' :: more))

/-- No token goes across the border of the two texts: between the last token of the first one and
the border are blanks at most. -/
def Boundary (path : Path) (front back : List Char) : Prop :=
  ∃ tokens before gap, Reached path (front ++ back) tokens before (gap ++ back) ∧
    ∀ x ∈ gap, Cursor.isBlank x

/-- The border of the two texts is inside of a token. -/
def CutsToken (path : Path) (front back : List Char) : Prop :=
  ∃ tokens before gap begun left rest kind,
    Reached path (front ++ back) tokens before (gap ++ (begun ++ left ++ rest)) ∧
      (∀ x ∈ gap, Cursor.isBlank x) ∧ Longest kind (begun ++ left) (begun ++ left ++ rest) ∧
      front = before ++ gap ++ begun ∧ begun ≠ [] ∧ left ≠ []

theorem Lexeme.IsToken.comment_text {value : List Char} (h : IsToken .comment value) :
    ∃ body, value = '#' :: body ∧ '\n' ∉ body := by
  generalize same : TokenKind.comment = kind at h
  cases h with
  | symbol spelled _ =>
    subst same
    cases spelled
  | word => exact absurd (same ▸ word_kind _) (by decide)
  | integer | string => cases same
  | comment plain => exact ⟨_, rfl, plain⟩

section
variable {path : Path} {text before gap rest filler : List Char} {tokens us : List Token}

/-- Without the line it begins with, it is such a text again. -/
theorem IsFiller.first_line (h : IsFiller filler) :
    ∃ line left, filler = line ++ left ∧ '\n' ∉ line ∧ (∀ x ∈ left.head?, x = '\n') ∧
      IsFiller left := by
  induction h with
  | nil => exact ⟨[], [], rfl, List.not_mem_nil, by simp, .nil⟩
  | @blank x more blank later ih =>
    obtain ⟨line, left, rfl, plain, stop, filled⟩ := ih
    by_cases newline : x = '\n'
    · exact ⟨[], _, rfl, List.not_mem_nil, by simp [newline], .blank blank later⟩
    · refine ⟨x :: line, left, rfl, ?_, stop, filled⟩
      simp [Ne.symm newline, plain]
  | @comment body more plain later _ =>
    exact ⟨'#' :: body, '\n' :: more, rfl, by simp [plain], by simp, .blank rfl later⟩

/-- Where it is read, only comments are found in it. -/
theorem IsFiller.lexes (h : IsFiller filler) (read : Lexes text us) :
    ∃ others, Lexes (filler ++ text) others ∧ withoutComments others = withoutComments us := by
  induction h with
  | nil => exact ⟨us, read, rfl⟩
  | blank blank _ ih =>
    obtain ⟨others, read, same⟩ := ih
    exact ⟨others, read.blank blank, same⟩
  | @comment body more plain _ ih =>
    obtain ⟨others, read, same⟩ := ih
    have ends : Ends .comment ('\n' :: (more ++ text)) := by simp [Ends, goesOn]
    have whole := (read.blank (x := '\n') rfl).begins (.comment (bne_newline plain) ends)
    rw [List.cons_append, List.append_assoc, List.cons_append, ← List.cons_append]
    exact ⟨_, whole, same⟩

theorem IsFiller.ends {kind : TokenKind} (h : IsFiller filler) (other : kind ≠ .comment)
    (ends : Ends kind rest) : Ends kind (filler ++ rest) := by
  cases h with
  | nil => exact ends
  | blank blank _ => exact ends_before other (.inl blank) _
  | comment _ _ => exact ends_before other (.inr rfl) _

/-- The last token is not carried on by a text that begins like the one after it. -/
theorem Reached.ends (h : Reached path text tokens before rest) {other : List Char}
    (same : other.head? = rest.head?) : ∀ t ∈ tokens.getLast?, Ends t.kind other := by
  cases h with
  | start => simp
  | token _ _ longest =>
    rw [List.getLast?_concat]
    intro t last c head
    cases Option.some.inj last
    exact longest.begins.ends c (same ▸ head)

/-- Another text may follow the tokens cut off so far if it does not carry on the last of them. -/
theorem Reached.lexes (h : Reached path text tokens before rest) {other : List Char}
    (ends : ∀ t ∈ tokens.getLast?, Ends t.kind other) (read : Lexes other us) :
    Lexes (before ++ other) (tokens.map Token.unplaced ++ us) := by
  induction h generalizing other us with
  | start => exact read
  | @token tokens before gap value rest kind reached blank longest ih =>
    have begins : Lexeme.Begins kind value other :=
      longest.begins.before (ends _ List.getLast?_concat)
    -- The token before it sees no more of the text than its first character.
    have same : (gap ++ (value ++ other)).head? = (gap ++ (value ++ rest)).head? := by
      obtain ⟨c, more, rfl, _⟩ := begins.not_blank
      simp only [List.cons_append, List.head?_append, List.head?_cons]
    have whole := ih (reached.ends same) ((read.begins begins).blanks blank)
    simpa [Token.unplaced] using whole

theorem Reached.filled_of_ends (h : Reached path text tokens before rest) {ahead : List Char}
    (blank : ∀ x ∈ gap, Cursor.isBlank x) (filled : IsFiller filler) (read : Lexes ahead us)
    (ends : ∀ t ∈ tokens.getLast?, Ends t.kind (gap ++ (filler ++ ahead))) :
    ∃ others, Lexes (before ++ (gap ++ (filler ++ ahead))) others ∧
      withoutComments others = withoutComments (tokens.map Token.unplaced ++ us) := by
  obtain ⟨others, read, same⟩ := filled.lexes read
  refine ⟨_, h.lexes ends (read.blanks blank), ?_⟩
  rw [withoutComments_append, withoutComments_append, same]

/-- Right behind a comment, the first line of what is put there becomes part of the comment. -/
theorem Reached.filled_after_comment {value : List Char}
    (h : Reached path text tokens before (gap ++ (value ++ rest)))
    (blank : ∀ x ∈ gap, Cursor.isBlank x) (longest : Longest .comment value (value ++ rest))
    (filled : IsFiller filler) (read : Lexes rest us) :
    ∃ others, Lexes (before ++ gap ++ value ++ (filler ++ rest)) others ∧
      withoutComments others = withoutComments (tokens.map Token.unplaced ++ us) := by
  obtain ⟨body, rfl, plain⟩ := longest.token.comment_text
  obtain ⟨line, left, rfl, plain', stop, filled⟩ := filled.first_line
  obtain ⟨others, read, same⟩ := filled.lexes read
  -- Where nothing is left, the comment ends as it did before.
  have ends : Ends .comment (left ++ rest) := by
    cases left with
    | nil => exact longest.begins.ends
    | cons x left => simp [Ends, goesOn, stop x rfl]
  have longer : '\n' ∉ body ++ line := by simp [plain, plain']
  have comment : Lexeme.Begins .comment ('#' :: (body ++ line)) (left ++ rest) :=
    .comment (bne_newline longer) ends
  have whole := h.lexes (h.ends (by cases gap <;> rfl)) ((read.begins comment).blanks blank)
  refine ⟨_, by simpa using whole, ?_⟩
  rw [withoutComments_append, withoutComments_append, ← same]
  rfl

theorem Reached.filled_behind (h : Reached path text tokens before rest)
    (filled : IsFiller filler) (read : Lexes rest us) :
    ∃ others, Lexes (before ++ (filler ++ rest)) others ∧
      withoutComments others = withoutComments (tokens.map Token.unplaced ++ us) := by
  cases h with
  | start => exact filled.lexes read
  | @token tokens before gap value rest kind reached blank longest =>
    by_cases comment : kind = .comment
    · subst comment
      obtain ⟨others, read, same⟩ := reached.filled_after_comment blank longest filled read
      refine ⟨others, read, same.trans ?_⟩
      simp [withoutComments]
    · refine (reached.token blank longest).filled_of_ends (List.forall_mem_nil _) filled read ?_
      rw [List.getLast?_concat]
      intro t last
      cases Option.some.inj last
      exact filled.ends comment longest.begins.ends

/-- What is put among the blanks after a token, or right behind it, adds comments at most. -/
theorem Reached.filled (h : Reached path text tokens before (gap ++ rest))
    (blank : ∀ x ∈ gap, Cursor.isBlank x) (filled : IsFiller filler) (read : Lexes rest us) :
    ∃ others, Lexes (before ++ (gap ++ (filler ++ rest))) others ∧
      withoutComments others = withoutComments (tokens.map Token.unplaced ++ us) := by
  cases gap with
  | nil => exact h.filled_behind filled read
  | cons x gap => exact h.filled_of_ends blank filled read (h.ends rfl)

end

theorem Reached.boundary {path : Path} {front back before : List Char} {tokens : List Token}
    (h : Reached path (front ++ back) tokens before back) : Boundary path front back :=
  ⟨tokens, before, [], h, List.forall_mem_nil _⟩

/-- Wherever a text has been passed, it falls apart at a boundary or inside of a token. -/
theorem Reached.boundary_or_cuts {path : Path} {front back before rest : List Char}
    {tokens : List Token} (h : Reached path (front ++ back) tokens before rest)
    (passed : front <+: before) : Boundary path front back ∨ CutsToken path front back := by
  generalize whole : front ++ back = text at h
  induction h with
  | start =>
    subst whole
    obtain rfl := List.prefix_nil.mp passed
    exact .inl (Reached.boundary .start)
  | @token tokens before gap value rest kind reached blank longest ih =>
    subst whole
    -- The border comes before this token's blanks, among them, or after them.
    rcases List.append_eq_append_iff.mp reached.split with ⟨more, rfl, _⟩ | ⟨more, rfl, split⟩
    · exact ih (List.prefix_append _ _)
    rcases List.append_eq_append_iff.mp split with ⟨begun, rfl, ahead⟩ | ⟨left, rfl, rfl⟩
    · rw [← List.append_assoc, List.prefix_append_right_inj] at passed
      obtain ⟨left, rfl⟩ := passed
      rw [List.append_assoc, List.append_cancel_left_eq] at ahead
      subst ahead
      by_cases front_of_token : begun = []
      · subst front_of_token
        exact .inl ⟨tokens, before, gap, reached, blank⟩
      by_cases behind_token : left = []
      · subst behind_token
        rw [List.append_nil] at reached longest
        exact .inl (reached.token blank longest).boundary
      · exact .inr ⟨tokens, before, gap, begun, left, rest, kind, reached, blank, longest,
          by simp, front_of_token, behind_token⟩
    · rw [List.forall_mem_append] at blank
      exact .inl ⟨tokens, before, more, by simpa using reached, blank.1⟩

/-- A place in an accepted text is a boundary unless it is inside of a token. -/
theorem boundary_or_cuts {path : Path} {front back : String} {tokens : List Token}
    (read : tokenize path (front ++ back) = .ok tokens) :
    Boundary path front.toList back.toList ∨ CutsToken path front.toList back.toList := by
  obtain ⟨cut, ⟨before, gap, reached, blank⟩, _⟩ := cutUp_of_tokenize read
  rw [String.toList_append] at reached
  rcases List.append_eq_append_iff.mp reached.split with ⟨more, split, _⟩ | ⟨begun, split, left⟩
  · exact reached.boundary_or_cuts ⟨more, split.symm⟩
  · rw [left, List.forall_mem_append] at blank
    exact .inl ⟨cut, before, begun, left ▸ reached, blank.1⟩

/-- With filler put in where no token is cut, a text has the tokens it had, besides its comments and
at other places. -/
theorem tokenize_filled {path : Path} {front inserted back : String} {tokens : List Token}
    (read : tokenize path (front ++ back) = .ok tokens)
    (whole : Boundary path front.toList back.toList) (filled : IsFiller inserted.toList) :
    ∃ again, tokenize path (front ++ inserted ++ back) = .ok again ∧
      (withoutComments again).map Token.unplaced =
        (withoutComments tokens).map Token.unplaced := by
  obtain ⟨seen, before, gap, reached, blank⟩ := whole
  obtain ⟨c, _, ahead, run⟩ := reached.run
  obtain ⟨next, rest, passed⟩ := passed_blanks blank ahead
  rw [tokenize, String.toList_append, run, tokensFrom_skipBlanks passed] at read
  cases found : tokensFrom path next with
  | error error => rw [found] at read; cases read
  | ok more =>
    rw [found] at read
    cases read
    obtain ⟨ts, finish, rfl, lexed⟩ := lexes_of_tokensFrom found
    rw [rest] at lexed
    obtain ⟨others, lexed, same⟩ := reached.filled blank filled lexed
    have split : front.toList = before ++ gap := by
      have texts := reached.split
      rwa [← List.append_assoc, List.append_left_inj] at texts
    obtain ⟨us, finish', read, values⟩ := lexed path (Cursor.atStart _) rfl
    refine ⟨us ++ [Token.endOfInput finish'], ?_, ?_⟩
    · simpa [tokenize, split] using read
    · simp only [withoutComments_unplaced, List.map_append, withoutComments_append] at same ⊢
      rw [values, same, List.append_assoc]
      rfl

end ShiFormat
