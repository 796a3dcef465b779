import ShiFormat.Proofs.Lexing.Lexemes
import ShiFormat.Proofs.Lexing.Position

/-!
The lexical classes, and the longest token a text begins with. Looking a text up in the table of
spellings and then by its first character finds exactly that token, and finds none exactly if no
token stands at the front.
-/
namespace ShiFormat.Lexeme

/-- These characters are a token of this kind. A whole word is a keyword or a name. -/
inductive IsToken : TokenKind → List Char → Prop where
  | symbol {kind : TokenKind} {text : String} (spelled : kind.spelling? = some text)
    (noWord : TokenKind.keyword? text = none) : IsToken kind text.toList
  | integer {digits : List Char} (some : digits ≠ []) (all : ∀ x ∈ digits, x.isDigit) :
    IsToken .integer digits
  | word {letters : List Char} {c : Char} (first : c.isAlpha ∨ c = '_')
    (all : ∀ x ∈ letters, x.isAlphanum ∨ x = '_') :
    IsToken ((TokenKind.keyword? (String.ofList (c :: letters))).getD .identifier) (c :: letters)
  | string {body : List Char} (inside : ∀ x ∈ body, x ≠ '"' ∧ x ≠ '\n') :
    IsToken .string ('"' :: (body ++ ['"']))
  | comment {body : List Char} (plain : '\n' ∉ body) : IsToken .comment ('#' :: body)

/-- These characters are the longest token that the text begins with. -/
structure Longest (kind : TokenKind) (value text : List Char) : Prop where
  token : IsToken kind value
  front : value <+: text
  longest : ∀ other longer, IsToken other longer → longer <+: text → longer.length ≤ value.length

theorem mem_spellings {kind : TokenKind} {text : String} (spelled : kind.spelling? = some text)
    (noWord : TokenKind.keyword? text = none) : (text.toList, kind) ∈ spellings := by
  have listed : kind ∈ symbols := by
    cases kind with
    | endOfInput | integer | string | identifier | comment => cases spelled
    | trueWord | falseWord | ifWord | elseWord => cases spelled; cases noWord
    | _ => decide
  exact List.mem_filterMap.mpr ⟨kind, listed, by rw [spelled]; rfl⟩

theorem spelled_of_mem {kind : TokenKind} {spelling : List Char}
    (listed : (spelling, kind) ∈ spellings) :
    ∃ text : String, spelling = text.toList ∧ kind.spelling? = some text ∧
      TokenKind.keyword? text = none := by
  obtain ⟨symbol, member, found⟩ := List.mem_filterMap.mp listed
  obtain ⟨text, spelled, same⟩ := Option.map_eq_some_iff.mp found
  cases same
  have noWords : ∀ kind ∈ symbols, ∀ text ∈ kind.spelling?, TokenKind.keyword? text = none := by
    decide
  exact ⟨text, rfl, spelled, noWords kind member text spelled⟩

theorem startsWord_iff {c : Char} : startsWord c = true ↔ c.isAlpha ∨ c = '_' := by
  simp [startsWord]

theorem continuesWord_iff {c : Char} : continuesWord c = true ↔ c.isAlphanum ∨ c = '_' := by
  simp [continuesWord]

theorem insideString_iff {c : Char} : insideString c = true ↔ c ≠ '"' ∧ c ≠ '\n' := by
  simp [insideString]

/-- What begins a text as a token is a token by itself. -/
theorem Begins.isToken {kind : TokenKind} {value ahead : List Char} (h : Begins kind value ahead) :
    IsToken kind value := by
  cases h with
  | symbol listed _ =>
    obtain ⟨text, rfl, spelled, noWord⟩ := spelled_of_mem listed
    exact .symbol spelled noWord
  | integer first all _ =>
    refine .integer (List.cons_ne_nil _ _) ?_
    rw [List.forall_mem_cons]
    exact ⟨first, all⟩
  | string inside => exact .string fun x member => insideString_iff.mp (inside x member)
  | word first all _ =>
    exact .word (startsWord_iff.mp first) fun x member => continuesWord_iff.mp (all x member)
  | comment all _ =>
    refine .comment fun newline => ?_
    simpa using all '\n' newline

theorem length_le_takeWhile {body : List Char} (ahead : List Char) {test : Char → Bool}
    (all : ∀ x ∈ body, test x = true) : body.length ≤ ((body ++ ahead).takeWhile test).length := by
  rw [List.takeWhile_append_of_pos all, List.length_append]
  omega

/-- Where a token stands at the front of a text, the text begins with a token at least as long. -/
theorem IsToken.covered {kind : TokenKind} {value : List Char} (h : IsToken kind value)
    (ahead : List Char) :
    ∃ found n, first (value ++ ahead) = .token found n ∧ value.length ≤ n := by
  cases h with
  | @symbol _ text spelled noWord =>
    have listed := mem_spellings spelled noWord
    have fits : text.toList <+: text.toList ++ ahead := List.prefix_append _ _
    cases found : symbol? (text.toList ++ ahead) with
    | none =>
      have miss := List.find?_eq_none.mp found _ listed
      exact absurd (List.isPrefixOf_iff_prefix.mpr fits) miss
    | some entry =>
      obtain ⟨_, _, longest⟩ := longest_of_symbol? found
      exact ⟨_, _, first_symbol found, longest _ listed fits⟩
  | integer some all =>
    cases value with
    | nil => exact absurd rfl some
    | cons c digits =>
      rw [List.forall_mem_cons] at all
      exact ⟨_, _, first_integer all.1, Nat.succ_le_succ (length_le_takeWhile ahead all.2)⟩
  | @word letters c start all =>
    have letters_ := length_le_takeWhile ahead fun x member =>
      continuesWord_iff.mpr (all x member)
    exact ⟨_, _, first_word (startsWord_iff.mpr start), Nat.succ_le_succ letters_⟩
  | @string body inside =>
    have closed : first ('"' :: (body ++ '"' :: ahead)) = .token .string (body.length + 2) :=
      first_string fun x member => insideString_iff.mpr (inside x member)
    refine ⟨_, _, by simpa using closed, by simp⟩
  | @comment body plain =>
    have whole := length_le_takeWhile ahead (bne_newline plain)
    exact ⟨_, _, first_comment _, Nat.succ_le_succ whole⟩

theorem longest_of_first {kind : TokenKind} {text : List Char} {n : Nat}
    (read : first text = .token kind n) :
    ∃ value ahead, text = value ++ ahead ∧ n = value.length ∧ Longest kind value text := by
  obtain ⟨value, ahead, rfl, rfl, begins⟩ := begins_of_first read
  refine ⟨value, ahead, rfl, rfl, begins.isToken, List.prefix_append _ _, ?_⟩
  rintro other longer token ⟨after, split⟩
  obtain ⟨found, n, again, long⟩ := token.covered after
  rw [split, begins.first] at again
  cases again
  exact long

theorem IsToken.begins {kind : TokenKind} {value : List Char} (h : IsToken kind value) :
    Begins kind value [] := by
  have nothing_on : ∀ kind, Ends kind [] := by simp [Ends]
  cases h with
  | symbol spelled noWord =>
    refine .symbol (mem_spellings spelled noWord) fun entry _ fits => ?_
    simpa using fits.length_le
  | integer some all =>
    cases value with
    | nil => exact absurd rfl some
    | cons c digits =>
      rw [List.forall_mem_cons] at all
      exact .integer all.1 all.2 (nothing_on _)
  | word start all =>
    exact .word (startsWord_iff.mpr start)
      (fun x member => continuesWord_iff.mpr (all x member)) (nothing_on _)
  | string inside => exact .string fun x member => insideString_iff.mpr (inside x member)
  | comment plain => exact .comment (bne_newline plain) (nothing_on _)

/-- The characters of a token tell its kind. -/
theorem IsToken.kind_unique {kind other : TokenKind} {value : List Char} (h : IsToken kind value)
    (h' : IsToken other value) : kind = other := by
  have same := h.begins.first.symm.trans h'.begins.first
  cases same
  rfl

theorem IsToken.plain {kind : TokenKind} {value : List Char} (h : IsToken kind value) :
    '\n' ∉ value := by
  intro newline
  cases h with
  | symbol spelled noWord =>
    have table : ∀ entry ∈ spellings, '\n' ∉ entry.1 := by decide
    exact table _ (mem_spellings spelled noWord) newline
  | integer _ all => exact absurd (all '\n' newline) (by decide)
  | word first all =>
    rcases List.mem_cons.mp newline with rfl | later
    · exact absurd first (by decide)
    · exact absurd (all '\n' later) (by decide)
  | string inside =>
    simp only [List.mem_cons, List.mem_append, List.not_mem_nil, or_false] at newline
    rcases newline with quote | member | quote
    · cases quote
    · exact (inside '\n' member).2 rfl
    · cases quote
  | comment plain =>
    rcases List.mem_cons.mp newline with hash | later
    · cases hash
    · exact plain later

theorem IsToken.solid {kind : TokenKind} {value : List Char} (h : IsToken kind value)
    (rest : List Char) : ∀ x ∈ (value ++ rest).head?, Cursor.isBlank x = false := by
  obtain ⟨c, more, rfl, solid⟩ := h.begins.not_blank
  intro x head
  cases Option.some.inj head
  exact solid

theorem Longest.first {kind : TokenKind} {value ahead : List Char}
    (h : Longest kind value (value ++ ahead)) :
    first (value ++ ahead) = .token kind value.length := by
  obtain ⟨found, n, read, long⟩ := h.token.covered ahead
  obtain ⟨value', ahead', split, rfl, h'⟩ := longest_of_first read
  have same_length : value.length = value'.length :=
    Nat.le_antisymm long (h.longest found value' h'.token h'.front)
  obtain ⟨rfl, _⟩ := List.append_inj split same_length
  rw [h.token.kind_unique h'.token]
  exact read

theorem Longest.begins {kind : TokenKind} {value ahead : List Char}
    (h : Longest kind value (value ++ ahead)) : Begins kind value ahead := by
  obtain ⟨value', ahead', split, length, begins⟩ := begins_of_first h.first
  obtain ⟨rfl, rfl⟩ := List.append_inj split length
  exact begins

end ShiFormat.Lexeme
