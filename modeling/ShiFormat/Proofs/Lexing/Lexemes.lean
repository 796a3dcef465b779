import ShiFormat.Cursor
import ShiFormat.Lexeme

/-!
The lexical grammar: which characters make a token, and how far the token reaches. A text begins
with a token exactly if the grammar says so, and each token is also read where it stands alone or
where the next character does not carry it on.
-/
namespace ShiFormat.Lexeme

/-- A token of this kind would go on with this character. -/
def goesOn : TokenKind → Char → Bool
  | .identifier, c | .trueWord, c | .falseWord, c | .ifWord, c | .elseWord, c => continuesWord c
  | .integer, c => c.isDigit
  | .plus, c | .minus, c | .bang, c | .equal, c | .less, c | .greater, c => c == '='
  | .comment, c => c != '\n'
  | _, _ => false

/-- The text ahead does not carry on a token of this kind. -/
def Ends (kind : TokenKind) (ahead : List Char) : Prop := ∀ c ∈ ahead.head?, goesOn kind c = false

/-- A character that is no blank and begins neither an integer nor a string, a word or a
comment. -/
def startsSymbol (c : Char) : Bool :=
  !Cursor.isBlank c && !c.isDigit && c != '"' && !startsWord c && c != '#'

/-- These characters make one token of this kind, and the text ahead of them is not part of it. -/
inductive Begins : TokenKind → List Char → List Char → Prop where
  | symbol {kind : TokenKind} {spelling ahead : List Char} (listed : (spelling, kind) ∈ spellings)
    (longest : ∀ entry ∈ spellings, entry.1 <+: spelling ++ ahead →
      entry.1.length ≤ spelling.length) : Begins kind spelling ahead
  | integer {digits ahead : List Char} {c : Char} (first : c.isDigit)
    (all : ∀ x ∈ digits, x.isDigit) (ends : Ends .integer ahead) :
    Begins .integer (c :: digits) ahead
  | string {body ahead : List Char} (inside : ∀ x ∈ body, insideString x) :
    Begins .string ('"' :: (body ++ ['"'])) ahead
  | word {letters ahead : List Char} {c : Char} (first : startsWord c)
    (all : ∀ x ∈ letters, continuesWord x) (ends : Ends .identifier ahead) :
    Begins ((TokenKind.keyword? (String.ofList (c :: letters))).getD .identifier) (c :: letters)
      ahead
  | comment {body ahead : List Char} (all : ∀ x ∈ body, x != '\n')
    (ends : Ends .comment ahead) : Begins .comment ('#' :: body) ahead

theorem spellings_earlier_not_prefix :
    spellings.Pairwise fun earlier later => ¬ earlier.1 <+: later.1 := by decide

/-- A spelling that goes on from another one goes on with one character of its kind. -/
theorem spellings_goesOn : ∀ entry ∈ spellings, ∀ longer ∈ spellings, entry.1 <+: longer.1 →
    longer.1.length ≤ entry.1.length ∨
      ∃ c, goesOn entry.2 c ∧ longer.1 = entry.1 ++ [c] := by
  have table : ∀ entry ∈ spellings, ∀ longer ∈ spellings, entry.1 <+: longer.1 →
      longer.1.length ≤ entry.1.length ∨
        (goesOn entry.2 '=' ∧ longer.1 = entry.1 ++ ['=']) := by decide
  intro entry listed longer listed' fits
  exact (table entry listed longer listed' fits).imp id fun ⟨on, same⟩ => ⟨'=', on, same⟩

theorem symbol?_none (c : Char) (rest : List Char) (start : startsSymbol c = false) :
    symbol? (c :: rest) = none := by
  have table : ∀ entry ∈ spellings, ∃ x more, entry.1 = x :: more ∧ startsSymbol x := by
    have heads : ∀ entry ∈ spellings, (entry.1.head?.any startsSymbol) = true := by decide
    intro entry listed
    have head := heads entry listed
    cases spelled : entry.1 with
    | nil => simp [spelled] at head
    | cons x more => exact ⟨x, more, rfl, by simpa [spelled] using head⟩
  unfold symbol?
  rw [List.find?_eq_none]
  intro entry listed found
  obtain ⟨x, more, spelled, starts⟩ := table entry listed
  have same : x = c := by
    have fits := List.isPrefixOf_iff_prefix.mp found
    rw [spelled, List.cons_prefix_cons] at fits
    exact fits.1
  simp [same, start] at starts

theorem symbol?_of_longest {kind : TokenKind} {spelling ahead : List Char}
    (listed : (spelling, kind) ∈ spellings)
    (longest : ∀ entry ∈ spellings, entry.1 <+: spelling ++ ahead →
      entry.1.length ≤ spelling.length) :
    symbol? (spelling ++ ahead) = some (spelling, kind) := by
  obtain ⟨before, after, split⟩ := List.append_of_mem listed
  have order := spellings_earlier_not_prefix
  rw [split, List.pairwise_append] at order
  unfold symbol?
  rw [List.find?_eq_some_iff_append]
  refine ⟨List.isPrefixOf_iff_prefix.mpr (List.prefix_append _ _), before, after, split, ?_⟩
  intro entry member
  rw [Bool.not_eq_true', Bool.eq_false_iff]
  intro found
  have fits := List.isPrefixOf_iff_prefix.mp found
  have short := longest entry (by simp [split, member]) fits
  have inside := List.prefix_of_prefix_length_le fits (List.prefix_append _ _) short
  exact order.2.2 entry member (spelling, kind) (by simp) inside

theorem longest_of_symbol? {text : List Char} {entry : List Char × TokenKind}
    (found : symbol? text = some entry) :
    entry ∈ spellings ∧ entry.1 <+: text ∧
      ∀ other ∈ spellings, other.1 <+: text → other.1.length ≤ entry.1.length := by
  unfold symbol? at found
  obtain ⟨fits, before, after, split, unmatched⟩ := List.find?_eq_some_iff_append.mp found
  have fits := List.isPrefixOf_iff_prefix.mp fits
  have order := spellings_earlier_not_prefix
  rw [split, List.pairwise_append, List.pairwise_cons] at order
  refine ⟨by simp [split], fits, ?_⟩
  intro other listed fits'
  rw [split, List.mem_append, List.mem_cons] at listed
  rcases listed with earlier | rfl | later
  · have miss := unmatched other earlier
    simp [List.isPrefixOf_iff_prefix.mpr fits'] at miss
  · exact Nat.le_refl _
  · refine Nat.le_of_not_lt fun longer => ?_
    exact order.2.1.1 other later
      (List.prefix_of_prefix_length_le fits fits' (Nat.le_of_lt longer))

/-- Letters come after the digits. -/
theorem not_digit_of_alpha {c : Char} (alpha : c.isAlpha) : c.isDigit = false := by
  have above : 'A'.toNat ≤ c.toNat := by
    rcases (Bool.or_eq_true _ _).mp alpha with upper | lower
    · exact (of_decide_eq_true upper).1
    · have small : 'a'.toNat ≤ c.toNat := of_decide_eq_true ((Bool.and_eq_true _ _).mp lower).1
      exact Nat.le_trans (by decide) small
  rw [Bool.eq_false_iff, ne_eq, Char.isDigit_iff_toNat]
  intro digit
  have below := Nat.le_trans above digit.2
  exact absurd below (by decide)

theorem startsWord_classes {c : Char} (start : startsWord c) :
    c.isDigit = false ∧ c ≠ '"' ∧ c ≠ '#' := by
  refine ⟨?_, ?_, ?_⟩
  · rcases (Bool.or_eq_true _ _).mp start with alpha | underscore
    · exact not_digit_of_alpha alpha
    · rw [beq_iff_eq.mp underscore]
      decide
  · rintro rfl
    simp [startsWord] at start
  · rintro rfl
    simp [startsWord] at start

theorem first_symbol {text : List Char} {entry : List Char × TokenKind}
    (found : symbol? text = some entry) : first text = .token entry.2 entry.1.length := by
  cases text with
  | nil => simp [show symbol? [] = none from rfl] at found
  | cons c rest => simp only [first, found]

theorem first_integer {c : Char} {rest : List Char} (digit : c.isDigit) :
    first (c :: rest) = .token .integer ((rest.takeWhile Char.isDigit).length + 1) := by
  simp [first, symbol?_none c rest (by simp [startsSymbol, digit]), digit]

theorem first_string {body ahead : List Char} (inside : ∀ x ∈ body, insideString x) :
    first ('"' :: (body ++ '"' :: ahead)) = .token .string (body.length + 2) := by
  have none := symbol?_none '"' (body ++ '"' :: ahead) (by decide)
  have stop : insideString '"' = false := by decide
  simp [first, none, List.takeWhile_append_of_pos inside, List.dropWhile_append_of_pos inside, stop]

theorem first_word {c : Char} {rest : List Char} (start : startsWord c) :
    first (c :: rest) = .token
      ((TokenKind.keyword? (String.ofList (c :: rest.takeWhile continuesWord))).getD .identifier)
      ((rest.takeWhile continuesWord).length + 1) := by
  have none := symbol?_none c rest (by simp [startsSymbol, start])
  obtain ⟨digit, quote, hash⟩ := startsWord_classes start
  simp [first, none, digit, quote, start]

theorem first_comment (rest : List Char) :
    first ('#' :: rest) = .token .comment ((rest.takeWhile (· != '\n')).length + 1) := by
  have none := symbol?_none '#' rest (by decide)
  simp [first, none, startsWord]

theorem first_blank {c : Char} (blank : Cursor.isBlank c) (rest : List Char) :
    first (c :: rest) = .stray c := by
  have none := symbol?_none c rest (by simp [startsSymbol, blank])
  simp only [Cursor.isBlank, Bool.or_eq_true, beq_iff_eq] at blank
  rcases blank with ((rfl | rfl) | rfl) | rfl <;> simp [first, none, startsWord]

theorem first_end {text : List Char} (read : first text = .endOfInput) : text = [] := by
  cases text with
  | nil => rfl
  | cons c rest =>
    simp only [first] at read
    repeat' split at read
    all_goals cases read

theorem ends_dropWhile {kind : TokenKind} {test : Char → Bool} (rest : List Char)
    (same : ∀ c, goesOn kind c = test c) : Ends kind (rest.dropWhile test) := by
  intro c head
  have stop := List.head?_dropWhile_not test rest
  rw [Option.mem_def.mp head] at stop
  rw [same]
  simpa using stop

/-- No token but a comment goes on with a blank or a comment. -/
theorem ends_before {kind : TokenKind} {c : Char} (other : kind ≠ .comment)
    (separator : Cursor.isBlank c ∨ c = '#') (text : List Char) : Ends kind (c :: text) := by
  intro x head
  cases Option.some.inj head
  simp only [Cursor.isBlank, Bool.or_eq_true, beq_iff_eq] at separator
  rcases separator with (((rfl | rfl) | rfl) | rfl) | rfl <;> cases kind <;>
    first | rfl | exact absurd rfl other

theorem takeWhile_of_ends {kind : TokenKind} {body ahead : List Char} (test : Char → Bool)
    (same : ∀ c, goesOn kind c = test c) (all : ∀ x ∈ body, test x) (ends : Ends kind ahead) :
    (body ++ ahead).takeWhile test = body := by
  rw [List.takeWhile_append_of_pos all]
  cases ahead with
  | nil => simp
  | cons c ahead =>
    have stop := ends c (by simp)
    rw [same] at stop
    simp [stop]

theorem Begins.first {kind : TokenKind} {value ahead : List Char} (h : Begins kind value ahead) :
    first (value ++ ahead) = .token kind value.length := by
  cases h with
  | symbol listed longest => exact first_symbol (symbol?_of_longest listed longest)
  | integer start all ends =>
    have body := takeWhile_of_ends Char.isDigit (fun _ => rfl) all ends
    rw [List.cons_append, first_integer start, body, List.length_cons]
  | string inside => simpa using first_string inside
  | word start all ends =>
    have body := takeWhile_of_ends continuesWord (fun _ => rfl) all ends
    rw [List.cons_append, first_word start, body, List.length_cons]
  | comment all ends =>
    have body := takeWhile_of_ends (· != '\n') (fun _ => rfl) all ends
    rw [List.cons_append, first_comment, body, List.length_cons]

theorem begins_integer {c : Char} (digit : c.isDigit) (rest : List Char) :
    Begins .integer (c :: rest.takeWhile Char.isDigit) (rest.dropWhile Char.isDigit) :=
  .integer digit (List.all_eq_true.mp List.all_takeWhile) (ends_dropWhile rest fun _ => rfl)

theorem begins_word {c : Char} (start : startsWord c) (rest : List Char) :
    Begins ((TokenKind.keyword? (String.ofList (c :: rest.takeWhile continuesWord))).getD
      .identifier) (c :: rest.takeWhile continuesWord) (rest.dropWhile continuesWord) :=
  .word start (List.all_eq_true.mp List.all_takeWhile) (ends_dropWhile rest fun _ => rfl)

theorem begins_comment (rest : List Char) :
    Begins .comment ('#' :: rest.takeWhile (· != '\n')) (rest.dropWhile (· != '\n')) :=
  .comment (List.all_eq_true.mp List.all_takeWhile) (ends_dropWhile rest fun _ => rfl)

theorem begins_of_first {kind : TokenKind} {text : List Char} {n : Nat}
    (read : first text = .token kind n) :
    ∃ value ahead, text = value ++ ahead ∧ n = value.length ∧ Begins kind value ahead := by
  cases text with
  | nil => simp [first] at read
  | cons c rest =>
    cases found : symbol? (c :: rest) with
    | some entry =>
      obtain ⟨listed, ⟨ahead, split⟩, longest⟩ := longest_of_symbol? found
      rw [first_symbol found] at read
      cases read
      refine ⟨entry.1, ahead, split.symm, rfl, .symbol listed ?_⟩
      rw [split]
      exact longest
    | none =>
      simp only [first, found] at read
      split at read
      · next digit =>
        cases read
        exact ⟨_, _, by simp, by simp, begins_integer digit rest⟩
      · split at read
        · next quote =>
          split at read
          · next closed =>
            cases read
            obtain ⟨ahead, split⟩ := List.head?_eq_some_iff.mp closed
            refine ⟨'"' :: (rest.takeWhile insideString ++ ['"']), ahead, ?_, by simp,
              .string (List.all_eq_true.mp List.all_takeWhile)⟩
            have whole := List.takeWhile_append_dropWhile (p := insideString) (l := rest)
            rw [split] at whole
            simp [quote, whole]
          · cases read
        · split at read
          · next start =>
            cases read
            exact ⟨_, _, by simp, by simp, begins_word start rest⟩
          · split at read
            · next hash =>
              cases read
              subst hash
              exact ⟨_, _, by simp, by simp, begins_comment rest⟩
            · cases read

theorem word_kind (word : String) : (TokenKind.keyword? word).getD .identifier ∈
    [TokenKind.identifier, .trueWord, .falseWord, .ifWord, .elseWord] := by
  unfold TokenKind.keyword?
  split <;> decide

theorem goesOn_word (word : String) (c : Char) :
    goesOn ((TokenKind.keyword? word).getD .identifier) c = continuesWord c := by
  unfold TokenKind.keyword?
  split <;> rfl

/-- What follows a token does not matter, as long as it does not carry the token on. -/
theorem Begins.before {kind : TokenKind} {value ahead other : List Char}
    (h : Begins kind value ahead) (ends : Ends kind other) : Begins kind value other := by
  cases h with
  | symbol listed longest =>
    refine .symbol listed fun entry listed' fits => ?_
    rcases Nat.le_total entry.1.length value.length with short | long
    · exact short
    · have from_value := List.prefix_of_prefix_length_le (List.prefix_append _ _) fits long
      rcases spellings_goesOn _ listed entry listed' from_value with short | ⟨c, on, same⟩
      · exact short
      · -- The longer spelling would have to take the first character ahead.
        rw [same, List.prefix_append_right_inj] at fits
        obtain ⟨tail, rfl⟩ := fits
        have stop := ends c (by simp)
        simp [on] at stop
  | integer first all _ => exact .integer first all ends
  | string inside => exact .string inside
  | word first all _ =>
    exact .word first all fun c head => (goesOn_word _ c).symm.trans (ends c head)
  | comment all _ => exact .comment all ends

/-- A symbol goes on with an equals sign only, and then to a longer symbol. -/
theorem symbol_goesOn {kind : TokenKind} {spelling : List Char} {c : Char}
    (listed : (spelling, kind) ∈ spellings) (on : goesOn kind c) :
    c = '=' ∧ ∃ longer ∈ spellings, longer.1 = spelling ++ ['='] := by
  have symbol : kind ∈ symbols := by
    have table : ∀ entry ∈ spellings, entry.2 ∈ symbols := by decide
    exact table _ listed
  have equals : c = '=' := by
    cases kind with
    | plus | minus | bang | equal | less | greater => exact beq_iff_eq.mp on
    | identifier | integer | trueWord | falseWord | ifWord | elseWord | comment =>
      exact absurd symbol (by decide)
    | _ => cases on
  subst equals
  have table : ∀ entry ∈ spellings, goesOn entry.2 '=' →
      ∃ longer ∈ spellings, longer.1 = entry.1 ++ ['='] := by decide
  exact ⟨rfl, table _ listed on⟩

/-- What follows a token does not carry it on. -/
theorem Begins.ends {kind : TokenKind} {value ahead : List Char} (h : Begins kind value ahead) :
    Ends kind ahead := by
  cases h with
  | symbol listed longest =>
    intro c head
    refine Bool.eq_false_iff.mpr fun on => ?_
    obtain ⟨rfl, longer, listed', spelled⟩ := symbol_goesOn listed on
    obtain ⟨rest, rfl⟩ := List.head?_eq_some_iff.mp head
    have fits : longer.1 <+: value ++ '=' :: rest := by simp [spelled]
    have short := longest longer listed' fits
    rw [spelled, List.length_append] at short
    exact Nat.not_succ_le_self _ short
  | integer _ _ ends => exact ends
  | string _ => exact fun _ _ => rfl
  | word _ _ ends => exact fun c head => (goesOn_word _ c).trans (ends c head)
  | comment _ ends => exact ends

theorem Begins.alone {kind : TokenKind} {value ahead : List Char} (h : Begins kind value ahead) :
    Begins kind value [] := h.before (by simp [Ends])

theorem Begins.spelling {kind : TokenKind} {value ahead : List Char}
    (h : Begins kind value ahead) :
    kind.spelling?.getD (String.ofList value) = String.ofList value := by
  cases h with
  | symbol listed _ =>
    obtain ⟨kind', _, spelled⟩ := List.mem_filterMap.mp listed
    obtain ⟨text, spelling, same⟩ := Option.map_eq_some_iff.mp spelled
    cases same
    simp [spelling]
  | word _ _ _ =>
    unfold TokenKind.keyword?
    split <;> simp_all [TokenKind.spelling?]
  | integer _ _ _ | string _ | comment _ _ => rfl

theorem Begins.ne_nil {kind : TokenKind} {value ahead : List Char} (h : Begins kind value ahead) :
    value ≠ [] := by
  have pos := (first_length_pos h.first).1
  exact List.length_pos_iff.mp pos

theorem Begins.not_blank {kind : TokenKind} {value ahead : List Char}
    (h : Begins kind value ahead) : ∃ c more, value = c :: more ∧ Cursor.isBlank c = false := by
  cases value with
  | nil => exact absurd rfl h.ne_nil
  | cons c more =>
    refine ⟨c, more, rfl, Bool.eq_false_iff.mpr fun blank => ?_⟩
    have read := h.first
    simp [first_blank blank] at read

/-- The lexer reads these characters as one token of this kind. -/
def reads (kind : TokenKind) (value : String) : Bool :=
  first value.toList == .token kind value.length

theorem begins_of_reads {kind : TokenKind} {value : String} (h : reads kind value) :
    Begins kind value.toList [] := by
  obtain ⟨start, ahead, split, length, begins⟩ := begins_of_first (beq_iff_eq.mp h)
  have none : ahead = [] := by
    have total := congrArg List.length split
    rw [List.length_append, ← length, String.length_toList] at total
    exact List.length_eq_zero_iff.mp (by omega)
  rw [split, none, List.append_nil]
  exact begins.alone

theorem reads_of_begins {kind : TokenKind} {value ahead : List Char}
    (h : Begins kind value ahead) : reads kind (String.ofList value) := by
  have alone := h.alone.first
  rw [List.append_nil] at alone
  simp [reads, alone]

end ShiFormat.Lexeme
