import ShiFormat.Proofs.Lexing.Munch

/-!
The lexer loses nothing. A text is the values of its tokens with blanks around them, each token
stands where the characters before it say, and no token reaches into the one after it.
-/
namespace ShiFormat
open Lexeme

/-- A token with the blanks in front of it. -/
structure Stretch where
  gap : List Char
  token : Token

def Stretch.text (part : Stretch) : List Char := part.gap ++ part.token.value.toList

/-- The text that these stretches make up. -/
def written (parts : List Stretch) : List Char := parts.flatMap Stretch.text

/-- Only blanks stand in the gap, and the token is some characters of one line, spelled as its kind
asks for. -/
structure Stretch.Solid (part : Stretch) : Prop where
  blank : ∀ x ∈ part.gap, Cursor.isBlank x
  within : part.token.isEndOfInput = false
  some : part.token.value ≠ ""
  plain : '\n' ∉ part.token.value.toList
  spelled : ∀ text ∈ part.token.kind.spelling?, part.token.value = text

/-- Each token stands where the characters before it say. -/
def Placed (path : Path) (parts : List Stretch) : Prop :=
  ∀ earlier part later, parts = earlier ++ part :: later →
    part.token.location = placeAfter path (written earlier ++ part.gap)

theorem Lexeme.IsToken.not_end {kind : TokenKind} {value : List Char} (h : IsToken kind value) :
    kind ≠ .endOfInput := by
  rintro rfl
  generalize same : TokenKind.endOfInput = kind at h
  cases h with
  | symbol spelled _ =>
    subst same
    cases spelled
  | word => exact absurd (same ▸ word_kind _) (by decide)
  | integer | string | comment => cases same

section
variable {path : Path} {text before gap value rest : List Char} {tokens : List Token}
  {kind : TokenKind}

theorem Stretch.solid_of_token (blank : ∀ x ∈ gap, Cursor.isBlank x) (token : IsToken kind value)
    (location : Location) : Solid ⟨gap, ⟨kind, String.ofList value, location⟩⟩ where
  blank := blank
  within := by simpa [Token.isEndOfInput] using token.not_end
  some := by simpa using token.begins.ne_nil
  plain := by simpa using token.plain
  spelled := by
    intro text spelled
    have spelling := token.begins.spelling
    rw [Option.mem_def.mp spelled] at spelling
    exact spelling.symm

theorem Placed.snoc {parts : List Stretch} {last : Stretch} (placed : Placed path parts)
    (location : last.token.location = placeAfter path (written parts ++ last.gap)) :
    Placed path (parts ++ [last]) := by
  intro earlier part later split
  rcases List.eq_nil_or_concat later with rfl | ⟨more, final, rfl⟩
  · obtain ⟨rfl, same⟩ := List.append_inj' split rfl
    cases same
    exact location
  · rw [List.concat_eq_append, ← List.cons_append, ← List.append_assoc] at split
    obtain ⟨rfl, _⟩ := List.append_inj' split rfl
    exact placed earlier part more rfl

theorem Reached.parts (h : Reached path text tokens before rest) :
    ∃ parts : List Stretch, tokens = parts.map Stretch.token ∧ before = written parts ∧
      (∀ part ∈ parts, part.Solid) ∧ Placed path parts := by
  induction h with
  | start =>
    refine ⟨[], rfl, rfl, by simp, ?_⟩
    intro earlier part later split
    simp at split
  | @token tokens before gap value rest kind _ blank longest ih =>
    obtain ⟨parts, rfl, rfl, solid, placed⟩ := ih
    let last : Stretch :=
      ⟨gap, ⟨kind, String.ofList value, placeAfter path (written parts ++ gap)⟩⟩
    refine ⟨parts ++ [last], by simp [last], ?_, ?_, placed.snoc rfl⟩
    · simp [written, Stretch.text, last]
    · rw [List.forall_mem_append, List.forall_mem_singleton]
      exact ⟨solid, Stretch.solid_of_token blank longest.token _⟩

/-- The token has ended where its text has been passed. -/
theorem span_stop_le (token : IsToken kind value) (path : Path) (before : List Char) :
    (Token.span ⟨kind, String.ofList value, placeAfter path before⟩).stop ≤
      placeAfter path (before ++ value) := by
  have positive := List.length_pos_iff.mpr token.begins.ne_nil
  have width : max value.length 1 = value.length := by omega
  have stop : (Token.span ⟨kind, String.ofList value, placeAfter path before⟩).stop =
      placeAfter path (before ++ value) := by
    rw [placeAfter_append token.plain]
    simp [Token.span, Span.across, width]
  rw [stop, Location.le_iff rfl]
  omega

/-- Tokens come one after the other, and all of them have ended where the text has been passed. -/
theorem Reached.ordered (h : Reached path text tokens before rest) :
    (tokens.Pairwise fun t u => t.span.stop ≤ u.location) ∧
      ∀ t ∈ tokens, t.span.stop.file = some path ∧ t.span.stop ≤ placeAfter path before := by
  induction h with
  | start => simp
  | @token tokens before gap value rest kind _ blank longest ih =>
    obtain ⟨apart, passed⟩ := ih
    have onward : ∀ t ∈ tokens, ∀ more, t.span.stop ≤ placeAfter path (before ++ more) := by
      intro t member more
      obtain ⟨file, stop⟩ := passed t member
      exact Location.le_trans (b := placeAfter path before) file rfl stop
        (placeAfter_le path before more)
    constructor
    · rw [List.pairwise_append]
      refine ⟨apart, List.pairwise_singleton _ _, fun t member u last => ?_⟩
      rw [List.mem_singleton.mp last]
      exact onward t member gap
    · rw [List.forall_mem_append, List.forall_mem_singleton]
      refine ⟨fun t member => ⟨(passed t member).1, ?_⟩, rfl, ?_⟩
      · rw [List.append_assoc]
        exact onward t member _
      · exact span_stop_le longest.token path _

end

/-- No token reaches into one that comes after it. -/
theorem ordered_of_tokenize {path : Path} {text : String} {tokens : List Token}
    (read : tokenize path text = .ok tokens) :
    tokens.Pairwise fun t u => t.span.stop ≤ u.span.start := by
  obtain ⟨cut, ⟨before, gap, reached, _⟩, rfl⟩ := cutUp_of_tokenize read
  obtain ⟨apart, passed⟩ := reached.ordered
  rw [List.pairwise_append]
  refine ⟨apart, List.pairwise_singleton _ _, fun t member u last => ?_⟩
  obtain ⟨file, stop⟩ := passed t member
  rw [List.mem_singleton.mp last, reached.split]
  exact Location.le_trans (b := placeAfter path before) file rfl stop
    (placeAfter_le path before gap)

end ShiFormat
