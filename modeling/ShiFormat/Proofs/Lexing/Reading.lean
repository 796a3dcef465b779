import ShiFormat.Tokenize
import ShiFormat.Comparison
import ShiFormat.Proofs.Lexing.Lexemes

/-!
How the lexer goes along a text: blanks are passed, and the token that stands next is read whole.
Every token it yields is one that its own text spells.
-/
namespace ShiFormat

/-- The token as if it had stood nowhere. -/
def Token.unplaced (t : Token) : Token := { t with location := Location.unknown }

@[simp] theorem Token.unplaced_kind (t : Token) : t.unplaced.kind = t.kind := rfl

/-- The text of the token is read as a token of its kind. -/
def Token.legible (t : Token) : Bool := Lexeme.reads t.kind t.value

section
variable {path : Path} {c : Cursor} {kind : TokenKind} {n : Nat}

theorem tokensFrom_end (read : Lexeme.first c.skipBlanks.rest = .endOfInput) :
    tokensFrom path c = .ok [Token.endOfInput (c.skipBlanks.location path)] := by
  rw [tokensFrom]
  split <;> simp_all

theorem tokensFrom_token (read : Lexeme.first c.skipBlanks.rest = .token kind n) :
    tokensFrom path c = (tokensFrom path (c.skipBlanks.advanceBy n)).map
      (Token.ofText kind (String.ofList (c.skipBlanks.rest.take n))
        (c.skipBlanks.location path) :: ·) := by
  rw [tokensFrom]
  split <;> simp_all
  obtain ⟨rfl, rfl⟩ := read
  split <;> simp_all [Except.map]

theorem tokensFrom_stray {symbol : Char} (read : Lexeme.first c.skipBlanks.rest = .stray symbol) :
    tokensFrom path c =
      .error (.unexpectedSymbol symbol (c.skipBlanks.location path) []) := by
  rw [tokensFrom]
  split <;> simp_all

theorem tokensFrom_unclosed (read : Lexeme.first c.skipBlanks.rest = .unclosed n) :
    tokensFrom path c = .error (.unexpectedSymbol (c.skipBlanks.advanceBy n).peek
      ((c.skipBlanks.advanceBy n).location path) ['"']) := by
  rw [tokensFrom]
  split <;> simp_all

theorem tokensFrom_skipBlanks {c' : Cursor} (same : c.skipBlanks = c'.skipBlanks) :
    tokensFrom path c = tokensFrom path c' := by
  rw [tokensFrom, tokensFrom, same]

end

/-- Wherever this text stands, the lexer reads it to its end and finds these tokens in it. -/
def Lexes (text : List Char) (tokens : List Token) : Prop :=
  ∀ path (c : Cursor), c.rest = text → ∃ ts finish,
    tokensFrom path c = .ok (ts ++ [Token.endOfInput finish]) ∧ ts.map Token.unplaced = tokens

theorem Lexes.nil : Lexes [] [] := by
  intro path c rest
  have read : Lexeme.first c.skipBlanks.rest = .endOfInput := by
    simp [Cursor.rest_skipBlanks, rest, Lexeme.first]
  exact ⟨[], _, tokensFrom_end read, rfl⟩

theorem passed_blanks {blanks text : List Char} {c : Cursor}
    (all : ∀ x ∈ blanks, Cursor.isBlank x) (rest : c.rest = blanks ++ text) :
    ∃ next : Cursor, next.rest = text ∧ c.skipBlanks = next.skipBlanks := by
  induction blanks generalizing c with
  | nil => exact ⟨c, rest, rfl⟩
  | cons x blanks ih =>
    rw [List.forall_mem_cons] at all
    let next := if x = '\n' then c.newLine else c.advance
    have rest' : next.rest = blanks ++ text := by
      simp only [next]
      split <;> simp [Cursor.newLine, Cursor.advance, Cursor.advanceBy, rest]
    have same : c.skipBlanks = next.skipBlanks := by
      rw [Cursor.skipBlanks, Cursor.skipBlanks, rest, rest', List.cons_append,
        List.takeWhile_cons_of_pos all.1, List.foldl_cons]
    obtain ⟨last, rest, onward⟩ := ih all.2 rest'
    exact ⟨last, rest, same.trans onward⟩

theorem Lexes.blanks {blanks text : List Char} {tokens : List Token}
    (all : ∀ x ∈ blanks, Cursor.isBlank x) (h : Lexes text tokens) :
    Lexes (blanks ++ text) tokens := by
  intro path c rest
  obtain ⟨next, rest', same⟩ := passed_blanks all rest
  obtain ⟨ts, finish, read, values⟩ := h path next rest'
  exact ⟨ts, finish, (tokensFrom_skipBlanks same).trans read, values⟩

theorem Lexes.blank {x : Char} {text : List Char} {tokens : List Token} (blank : Cursor.isBlank x)
    (h : Lexes text tokens) : Lexes (x :: text) tokens :=
  h.blanks (List.forall_mem_singleton.mpr blank)

theorem Lexes.token {t : Token} {text : List Char} {tokens : List Token} (legible : t.legible)
    (ends : Lexeme.Ends t.kind text) (h : Lexes text tokens) :
    Lexes (t.value.toList ++ text) (t.unplaced :: tokens) := by
  intro path c rest
  have begins := (Lexeme.begins_of_reads legible).before ends
  have still : c.skipBlanks.rest = t.value.toList ++ text := by
    obtain ⟨x, more, value, solid⟩ := begins.not_blank
    rw [Cursor.rest_skipBlanks, rest, value]
    simp [solid]
  have read := begins.first
  rw [← still] at read
  obtain ⟨ts, finish, run, values⟩ := h path (c.skipBlanks.advanceBy t.value.toList.length) (by
    rw [Cursor.rest_advanceBy, still, List.drop_left])
  refine ⟨Token.ofText t.kind t.value (c.skipBlanks.location path) :: ts, finish, ?_, ?_⟩
  · rw [tokensFrom_token read, run, still, List.take_left, String.ofList_toList]
    rfl
  · have stored := begins.spelling
    rw [String.ofList_toList] at stored
    simp [values, Token.ofText, Token.unplaced, stored]

theorem ofText_legible {kind : TokenKind} {text : List Char} {n : Nat}
    (read : Lexeme.first text = .token kind n) (location : Location) :
    (Token.ofText kind (String.ofList (text.take n)) location).legible := by
  obtain ⟨value, ahead, rfl, rfl, begins⟩ := Lexeme.begins_of_first read
  rw [List.take_left]
  unfold Token.legible Token.ofText
  rw [begins.spelling]
  exact Lexeme.reads_of_begins begins

/-- Each token of a text is one that its own text spells. -/
theorem legible_of_tokensFrom {path : Path} {c : Cursor} {tokens : List Token}
    (read : tokensFrom path c = .ok tokens) :
    ∀ t ∈ tokens, t.kind ≠ .endOfInput → t.legible := by
  fun_induction tokensFrom path c generalizing tokens with
  | case1 c here location =>
    intro t member solid
    cases read
    rw [List.mem_singleton.mp member] at solid
    exact absurd rfl solid
  | case4 c here location kind length first token more rest =>
    rename_i ih
    cases read
    intro t member solid
    rcases List.mem_cons.mp member with rfl | later
    · exact ofText_legible first location
    · exact ih rest t later solid
  | case2 | case3 | case5 => cases read

/-- The token that a text begins with is read before whatever can be read after it. -/
theorem Lexes.begins {kind : TokenKind} {value text : List Char} {tokens : List Token}
    (begins : Lexeme.Begins kind value text) (h : Lexes text tokens) :
    Lexes (value ++ text) (⟨kind, String.ofList value, Location.unknown⟩ :: tokens) := by
  have legible := Lexeme.reads_of_begins begins
  have read := h.token (t := ⟨kind, String.ofList value, Location.unknown⟩) legible begins.ends
  rwa [String.toList_ofList] at read

/-- What the lexer reads from one cursor it reads wherever the same text stands. -/
theorem lexes_of_tokensFrom {path : Path} {c : Cursor} {tokens : List Token}
    (read : tokensFrom path c = .ok tokens) :
    ∃ ts finish, tokens = ts ++ [Token.endOfInput finish] ∧
      Lexes c.rest (ts.map Token.unplaced) := by
  have skipped (c : Cursor) {us : List Token} (h : Lexes c.skipBlanks.rest us) :
      Lexes c.rest us := by
    have whole : c.rest.takeWhile Cursor.isBlank ++ c.skipBlanks.rest = c.rest := by
      rw [Cursor.rest_skipBlanks, List.takeWhile_append_dropWhile]
    rw [← whole]
    exact h.blanks (List.all_eq_true.mp List.all_takeWhile)
  fun_induction tokensFrom path c generalizing tokens with
  | case1 c here location =>
    rename_i first
    cases read
    refine ⟨[], location, rfl, skipped c ?_⟩
    rw [Lexeme.first_end first]
    exact .nil
  | case4 c here location kind length first token more rest =>
    rename_i ih
    cases read
    obtain ⟨ts, finish, rfl, after⟩ := ih rest
    obtain ⟨value, ahead, split, rfl, begins⟩ := Lexeme.begins_of_first first
    refine ⟨token :: ts, finish, rfl, skipped c ?_⟩
    have left : (here.advanceBy value.length).rest = ahead := by
      rw [Cursor.rest_advanceBy, split, List.drop_left]
    have stored : token.unplaced = ⟨kind, String.ofList value, Location.unknown⟩ := by
      simp only [token, split, List.take_left, Token.ofText, begins.spelling, Token.unplaced]
    rw [left] at after
    rw [List.map_cons, stored, split]
    exact after.begins begins
  | case2 | case3 | case5 => cases read

end ShiFormat
