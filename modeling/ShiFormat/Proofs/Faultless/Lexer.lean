import ShiFormat.Proofs.Faultless.Cursor
import ShiFormat.Proofs.Lexing.Lossless
import ShiFormat.Proofs.Lexing.Reading

/-!
A lexer that checks what it takes for granted, and decides on a token by one character after the
other. It yields what the plain lexer yields, and is never at fault where the text fits.
-/
namespace ShiFormat
namespace Checked
open Cursor (Along)

/-- The kinds that no further symbol changes. -/
def oneSymbol? : Char → Option TokenKind
  | '{' => some .leftBrace
  | '}' => some .rightBrace
  | '(' => some .leftParen
  | ')' => some .rightParen
  | '[' => some .leftBracket
  | ']' => some .rightBracket
  | '.' => some .dot
  | ',' => some .comma
  | _ => none

/-- The kinds that become another one before an equals sign. -/
def oneOrTwoSymbols? : Char → Option TokenKind
  | '+' => some .plus
  | '-' => some .minus
  | '!' => some .bang
  | '=' => some .equal
  | '<' => some .less
  | '>' => some .greater
  | _ => none

def twoSymbols? : Char → Char → Option TokenKind
  | '&', '&' => some .andAnd
  | '|', '|' => some .orOr
  | _, _ => none

def withEquals : TokenKind → Checked TokenKind
  | .plus => .ok .plusEquals
  | .minus => .ok .minusEquals
  | .bang => .ok .notEqual
  | .equal => .ok .equalEqual
  | .less => .ok .lessEqual
  | .greater => .ok .greaterEqual
  | _ => fault .unreachable

/-- The kind that begins with these two characters, and how many of them it takes. -/
def symbol? (first second : Char) : Checked (Option (TokenKind × Nat)) :=
  match oneSymbol? first with
  | some kind => .ok (some (kind, 1))
  | none =>
    match oneOrTwoSymbols? first with
    | some kind =>
      if second = '=' then do pure (some (← withEquals kind, 2)) else .ok (some (kind, 1))
    | none => .ok ((twoSymbols? first second).map fun kind => (kind, 2))

/-- Where the lexer has come to in a token that began at an offset. -/
structure Reading where
  text : List Char
  start : Nat
  location : Location
  cursor : Cursor

namespace Reading

def lexeme (r : Reading) : Checked (List Char) := do
  slice r.text r.start (← offset r.text r.cursor)

def token (kind : TokenKind) (r : Reading) : Checked (Token × Cursor) := do
  ensure (kind != .endOfInput)
  pure (Token.ofText kind (String.ofList (← r.lexeme)) r.location, r.cursor)

def advanceBy (n : Nat) (r : Reading) : Checked Reading := do
  pure { r with cursor := ← Checked.advanceBy n r.cursor }

def advanceWhile (test : Char → Bool) (r : Reading) : Checked Reading := do
  let cursor ← Checked.advanceWhile test (r.cursor.rest.length + 1) r.cursor
  pure { r with cursor }

def integer (r : Reading) : Checked (Token × Cursor) := do
  token .integer (← advanceWhile Char.isDigit r)

def stringBody (r : Reading) : Checked Reading := do
  advanceWhile (· != '"') (← advanceBy 1 r)

def string (path : Path) (r : Reading) : Checked (Token × Cursor) := do
  let r ← stringBody r
  if r.cursor.peek != '"' then
    refuse (.unexpectedSymbol r.cursor.peek (← Checked.location path r.cursor) ['"'])
  else token .string (← advanceBy 1 r)

def word (r : Reading) : Checked (Token × Cursor) := do
  let r ← advanceWhile Lexeme.continuesWord r
  let kind := (TokenKind.keyword? (String.ofList (← r.lexeme))).getD .identifier
  token kind r

def comment (r : Reading) : Checked (Token × Cursor) := do
  token .comment (← advanceWhile (fun _ => true) r)

def next (path : Path) (r : Reading) : Checked (Token × Cursor) := do
  match ← symbol? r.cursor.peek r.cursor.peek2 with
  | some (kind, n) => token kind (← advanceBy n r)
  | none =>
    if r.cursor.peek.isDigit then integer r
    else if r.cursor.peek = '"' then string path r
    else if Lexeme.startsWord r.cursor.peek then word r
    else if r.cursor.peek = '#' then comment r
    else refuse (.unexpectedSymbol r.cursor.peek r.location [])

end Reading

def nextToken (path : Path) (text : List Char) (c : Cursor) : Checked (Token × Cursor) := do
  let c ← skipBlanks (c.rest.length + 1) c
  let start ← offset text c
  let location ← location path c
  if c.atEnd then pure (Token.endOfInput location, c)
  else Reading.next path ⟨text, start, location, c⟩

def tokensFrom (path : Path) (text : List Char) : Nat → Cursor → Checked (List Token)
  | 0, _ => fault .endless
  | rounds + 1, c => do
    let (token, c) ← nextToken path text c
    if token.isEndOfInput then pure [token]
    else pure (token :: (← tokensFrom path text rounds c))

def tokenize (path : Path) (text : String) : Checked (List Token) :=
  tokensFrom path text.toList (text.toList.length + 1) (Cursor.atStart text.toList)

theorem oneSymbol?_spells {x : Char} {kind : TokenKind} (found : oneSymbol? x = some kind)
    (rest : List Char) : Lexeme.symbol? (x :: rest) = some ([x], kind) := by
  unfold oneSymbol? at found
  split at found <;> cases found <;> rfl

/-- Before an equals sign there is a longer kind for each of these. -/
theorem oneOrTwoSymbols?_equals {x : Char} {kind : TokenKind}
    (found : oneOrTwoSymbols? x = some kind) (rest : List Char) :
    ∃ longer, withEquals kind = .ok longer ∧
      Lexeme.symbol? (x :: '=' :: rest) = some ([x, '='], longer) := by
  unfold oneOrTwoSymbols? at found
  split at found <;> cases found <;> exact ⟨_, rfl, rfl⟩

theorem oneOrTwoSymbols?_alone {x : Char} {kind : TokenKind}
    (found : oneOrTwoSymbols? x = some kind) {rest : List Char}
    (other : rest.headD '\x00' ≠ '=') : Lexeme.symbol? (x :: rest) = some ([x], kind) := by
  have unequal : (['='] : List Char).isPrefixOf rest = false := by
    cases rest with
    | nil => rfl
    | cons y rest => simpa [List.isPrefixOf] using Ne.symm other
  unfold oneOrTwoSymbols? at found
  split at found <;> cases found <;>
    simp [Lexeme.symbol?, Lexeme.spellings, Lexeme.symbols, TokenKind.spelling?, unequal]

theorem twoSymbols?_spells {x : Char} {kind : TokenKind} {rest : List Char}
    (found : twoSymbols? x (rest.headD '\x00') = some kind) :
    ∃ y, Lexeme.symbol? (x :: rest) = some ([x, y], kind) := by
  cases rest with
  | nil =>
    unfold twoSymbols? at found
    split at found <;> simp_all
  | cons y rest =>
    rw [List.headD_cons] at found
    unfold twoSymbols? at found
    split at found <;> cases found <;> exact ⟨_, rfl⟩

theorem symbol?_none {x : Char} {rest : List Char} (one : oneSymbol? x = none)
    (oneOrTwo : oneOrTwoSymbols? x = none) (two : twoSymbols? x (rest.headD '\x00') = none) :
    Lexeme.symbol? (x :: rest) = none := by
  have table : ∀ entry ∈ Lexeme.spellings, entry.1.head?.any fun c => (oneSymbol? c).isSome ||
      (oneOrTwoSymbols? c).isSome ||
      entry.1.tail.head?.any fun d => (twoSymbols? c d).isSome := by decide
  unfold Lexeme.symbol?
  rw [List.find?_eq_none]
  intro entry listed found
  obtain ⟨more, split⟩ := List.isPrefixOf_iff_prefix.mp found
  have spells := table entry listed
  cases spelling : entry.1 with
  | nil => simp [spelling] at spells
  | cons c front =>
    rw [spelling, List.cons_append] at split
    cases split
    simp only [spelling, List.head?_cons, Option.any_some, one, oneOrTwo, Option.isSome_none,
      Bool.false_or, List.tail_cons] at spells
    cases front with
    | nil => cases spells
    | cons d front =>
      rw [List.cons_append, List.headD_cons] at two
      simp [two] at spells

/-- Looking at two characters finds the symbol that the table of spellings finds. -/
theorem symbol?_eq (x : Char) (rest : List Char) :
    symbol? x (rest.headD '\x00') =
      .ok ((Lexeme.symbol? (x :: rest)).map fun entry => (entry.2, entry.1.length)) := by
  unfold symbol?
  cases one : oneSymbol? x with
  | some kind =>
    rw [oneSymbol?_spells one]
    rfl
  | none =>
    cases oneOrTwo : oneOrTwoSymbols? x with
    | some kind =>
      by_cases equals : rest.headD '\x00' = '='
      · obtain ⟨more, rfl⟩ : ∃ more, rest = '=' :: more := by
          cases rest with
          | nil => cases equals
          | cons y more => exact ⟨more, congrArg (· :: more) equals⟩
        obtain ⟨longer, becomes, spells⟩ := oneOrTwoSymbols?_equals oneOrTwo more
        rw [spells]
        simp only [List.headD_cons, ↓reduceIte, becomes]
        rfl
      · rw [oneOrTwoSymbols?_alone oneOrTwo equals]
        simp only [equals, ↓reduceIte]
        rfl
    | none =>
      cases two : twoSymbols? x (rest.headD '\x00') with
      | some kind =>
        obtain ⟨y, spells⟩ := twoSymbols?_spells two
        rw [spells]
        rfl
      | none =>
        rw [symbol?_none one oneOrTwo two]
        rfl

theorem plain_of_first {kind : TokenKind} {text : List Char} {n : Nat}
    (read : Lexeme.first text = .token kind n) : '\n' ∉ text.take n := by
  obtain ⟨value, ahead, rfl, rfl, begins⟩ := Lexeme.begins_of_first read
  rw [List.take_left]
  exact begins.isToken.plain

theorem not_end_of_first {kind : TokenKind} {text : List Char} {n : Nat}
    (read : Lexeme.first text = .token kind n) : kind ≠ .endOfInput := by
  obtain ⟨_, _, _, _, begins⟩ := Lexeme.begins_of_first read
  exact begins.isToken.not_end

namespace Reading

/-- A reading of what stands at a cursor, so many characters further on. -/
def of (text : List Char) (location : Location) (c : Cursor) (n : Nat) : Reading :=
  ⟨text, c.offset, location, c.advanceBy n⟩

variable {text before : List Char} {c : Cursor} {location : Location} {n : Nat}

theorem lexeme_ok (along : Along text before c) (plain : '\n' ∉ c.rest.take n) :
    (of text location c n).lexeme = .ok (c.rest.take n) := by
  have behind := offset_ok (along.advanceBy plain)
  rw [lexeme, of, behind]
  exact slice_passed along plain

theorem advanceBy_ok (fits : Fits text) (along : Along text before c) {m : Nat}
    (plain : '\n' ∉ c.rest.take (n + m)) :
    advanceBy m (of text location c n) = .ok (of text location c (n + m)) := by
  rw [List.take_add, List.mem_append, not_or] at plain
  have moved := Checked.advanceBy_ok fits (along.advanceBy plain.1) plain.2
  rw [Cursor.advanceBy_add] at moved
  simp only [advanceBy, of, moved]
  rfl

theorem advanceWhile_ok (fits : Fits text) (along : Along text before c)
    (plain : '\n' ∉ c.rest.take n) (test : Char → Bool) :
    advanceWhile test (of text location c n) = .ok (of text location c
      (n + ((c.rest.drop n).takeWhile fun x => x != '\n' && test x).length)) := by
  have enough := Nat.lt_succ_self (c.advanceBy n).rest.length
  have moved := Checked.advanceWhile_ok fits (along.advanceBy plain) test enough
  rw [Cursor.advanceWhile, Cursor.advanceBy_add] at moved
  simp only [advanceWhile, of, moved]
  rfl

/-- The token of a kind and a length at a cursor, and the cursor behind it. -/
def yielded (c : Cursor) (location : Location) (kind : TokenKind) (n : Nat) : Token × Cursor :=
  (Token.ofText kind (String.ofList (c.rest.take n)) location, c.advanceBy n)

theorem token_ok (along : Along text before c) {kind : TokenKind}
    (read : Lexeme.first c.rest = .token kind n) :
    token kind (of text location c n) = .ok (yielded c location kind n) := by
  have solid := not_end_of_first read
  rw [token, ensure_ok (by simpa using solid), ok_bind, lexeme_ok along (plain_of_first read)]
  rfl

section
variable {x : Char} {rest : List Char}

theorem integer_ok (fits : Fits text) (along : Along text before c) (ahead : c.rest = x :: rest)
    (digit : x.isDigit) : (of text location c 0).integer =
      .ok (yielded c location .integer ((rest.takeWhile Char.isDigit).length + 1)) := by
  have digits : (fun x : Char => x != '\n' && x.isDigit) = Char.isDigit := by
    funext x
    by_cases newline : x = '\n' <;> simp [newline]
  rw [integer, advanceWhile_ok fits along (by simp), digits, ahead, List.drop_zero,
    List.takeWhile_cons_of_pos digit, Nat.zero_add, List.length_cons]
  exact token_ok along (ahead ▸ Lexeme.first_integer digit)

theorem word_ok (fits : Fits text) (along : Along text before c) (ahead : c.rest = x :: rest)
    (start : Lexeme.startsWord x) : (of text location c 0).word =
      .ok (yielded c location ((TokenKind.keyword?
          (String.ofList (x :: rest.takeWhile Lexeme.continuesWord))).getD .identifier)
        ((rest.takeWhile Lexeme.continuesWord).length + 1)) := by
  have letters : (fun x : Char => x != '\n' && Lexeme.continuesWord x) = Lexeme.continuesWord := by
    funext x
    by_cases newline : x = '\n' <;> simp [newline, Lexeme.continuesWord]
  have continues : Lexeme.continuesWord x := by
    simp only [Lexeme.startsWord, Lexeme.continuesWord, Char.isAlphanum, Bool.or_eq_true] at start ⊢
    exact start.imp Or.inl id
  have read : Lexeme.first (x :: rest) = _ := Lexeme.first_word start
  rw [← ahead] at read
  have whole : c.rest.take ((rest.takeWhile Lexeme.continuesWord).length + 1) =
      x :: rest.takeWhile Lexeme.continuesWord := by
    rw [ahead, List.take_succ_cons, ← List.prefix_iff_eq_take.mp (List.takeWhile_prefix _)]
  rw [word, advanceWhile_ok fits along (by simp), letters, ahead, List.drop_zero,
    List.takeWhile_cons_of_pos continues, Nat.zero_add, List.length_cons, ok_bind,
    lexeme_ok along (plain_of_first read), whole, ok_bind]
  exact token_ok along read

theorem comment_ok (fits : Fits text) (along : Along text before c) (ahead : c.rest = '#' :: rest) :
    (of text location c 0).comment =
      .ok (yielded c location .comment ((rest.takeWhile (· != '\n')).length + 1)) := by
  rw [comment, advanceWhile_ok fits along (by simp)]
  simp only [Bool.and_true, ahead, List.drop_zero, Nat.zero_add]
  rw [List.takeWhile_cons_of_pos (by decide), List.length_cons]
  exact token_ok along (ahead ▸ Lexeme.first_comment rest)

/-- The body of a string goes to the end of the line or to the first quote. -/
theorem stringBody_ok (location : Location) (fits : Fits text) (along : Along text before c)
    (ahead : c.rest = '"' :: rest) :
    let n := (rest.takeWhile Lexeme.insideString).length + 1
    (of text location c 0).stringBody = .ok (of text location c n) ∧
      (c.advanceBy n).rest = rest.dropWhile Lexeme.insideString ∧ '\n' ∉ c.rest.take n := by
  have inside : (fun x : Char => x != '\n' && x != '"') = Lexeme.insideString :=
    funext fun x => Bool.and_comm _ _
  have body : '\n' ∉ rest.takeWhile Lexeme.insideString := fun newline =>
    (Lexeme.insideString_iff.mp (List.all_eq_true.mp List.all_takeWhile _ newline)).2 rfl
  have quote : '\n' ∉ c.rest.take (0 + 1) := by simp [ahead]
  refine ⟨?_, ?_, ?_⟩
  · rw [stringBody, advanceBy_ok fits along quote, ok_bind, advanceWhile_ok fits along quote,
      inside, ahead, Nat.zero_add, List.drop_succ_cons, List.drop_zero, Nat.add_comm]
  · have whole := List.takeWhile_append_dropWhile (p := Lexeme.insideString) (l := rest)
    rw [Cursor.rest_advanceBy, ahead, List.drop_succ_cons]
    exact (congrArg (List.drop _) whole.symm).trans List.drop_left
  · rw [ahead, List.take_succ_cons, ← List.prefix_iff_eq_take.mp (List.takeWhile_prefix _)]
    simp [body]

theorem string_ok (fits : Fits text) (along : Along text before c) (ahead : c.rest = '"' :: rest)
    (path : Path) (closed : (rest.dropWhile Lexeme.insideString).head? = some '"') :
    (of text location c 0).string path =
      .ok (yielded c location .string ((rest.takeWhile Lexeme.insideString).length + 2)) := by
  obtain ⟨body, left, _⟩ := stringBody_ok location fits along ahead
  obtain ⟨more, behind⟩ := List.head?_eq_some_iff.mp closed
  have whole := List.takeWhile_append_dropWhile (p := Lexeme.insideString) (l := rest)
  rw [behind] at whole
  have read : Lexeme.first ('"' :: (rest.takeWhile Lexeme.insideString ++ '"' :: more)) =
      .token .string ((rest.takeWhile Lexeme.insideString).length + 2) :=
    Lexeme.first_string (List.all_eq_true.mp List.all_takeWhile)
  rw [whole, ← ahead] at read
  have next : (c.advanceBy ((rest.takeWhile Lexeme.insideString).length + 1)).peek = '"' := by
    rw [Cursor.peek, left, behind, List.headD_cons]
  rw [string, body, ok_bind, of, next]
  simp only [bne_self_eq_false, Bool.false_eq_true, ↓reduceIte]
  have quote : advanceBy 1 (of text location c ((rest.takeWhile Lexeme.insideString).length + 1)) =
      .ok (of text location c ((rest.takeWhile Lexeme.insideString).length + 2)) :=
    advanceBy_ok fits along (plain_of_first read)
  exact (congrArg (· >>= token .string) quote).trans (token_ok along read)

theorem string_unclosed (fits : Fits text) (along : Along text before c)
    (ahead : c.rest = '"' :: rest) (path : Path)
    (unclosed : (rest.dropWhile Lexeme.insideString).head? ≠ some '"') :
    let stop := c.advanceBy ((rest.takeWhile Lexeme.insideString).length + 1)
    (of text location c 0).string path =
      refuse (.unexpectedSymbol stop.peek (stop.location path) ['"']) := by
  intro stop
  obtain ⟨body, left, plain⟩ := stringBody_ok location fits along ahead
  have other : stop.peek ≠ '"' := by
    intro quote
    rw [Cursor.peek, left] at quote
    cases behind : rest.dropWhile Lexeme.insideString with
    | nil => simp [behind] at quote
    | cons x more =>
      rw [behind, List.headD_cons] at quote
      exact unclosed (by rw [behind, quote, List.head?_cons])
  rw [string, body, ok_bind]
  simp only [of, stop, bne_iff_ne.mpr other, ↓reduceIte, location_ok (along.advanceBy plain)]
  rfl

end

/-- What the plain lexer makes of a lexeme at a cursor. -/
def outcome (path : Path) (c : Cursor) : Lexeme → Checked (Token × Cursor)
  | .token kind n => .ok (yielded c (c.location path) kind n)
  | .unclosed n =>
    refuse (.unexpectedSymbol (c.advanceBy n).peek ((c.advanceBy n).location path) ['"'])
  | .stray symbol => refuse (.unexpectedSymbol symbol (c.location path) [])
  | .endOfInput => .ok (Token.endOfInput (c.location path), c)

theorem next_ok (fits : Fits text) (along : Along text before c) {x : Char} {rest : List Char}
    (ahead : c.rest = x :: rest) (path : Path) :
    (of text (c.location path) c 0).next path = outcome path c (Lexeme.first c.rest) := by
  have first : (of text (c.location path) c 0).cursor.peek = x := by
    rw [of, Cursor.advanceBy_zero, Cursor.peek, ahead, List.headD_cons]
  have second : (of text (c.location path) c 0).cursor.peek2 = rest.headD '\x00' := by
    rw [of, Cursor.advanceBy_zero, Cursor.peek2, ahead, List.tail_cons]
  rw [next, first, second, symbol?_eq, ok_bind]
  cases symbol : Lexeme.symbol? (x :: rest) with
  | some entry =>
    have read := Lexeme.first_symbol symbol
    rw [← ahead] at read
    have passed : '\n' ∉ c.rest.take (0 + entry.1.length) := by
      rw [Nat.zero_add]
      exact plain_of_first read
    rw [read, Option.map_some]
    simp only [advanceBy_ok fits along passed, ok_bind, Nat.zero_add]
    exact token_ok along read
  | none =>
    -- From here on both readers ask the same of the first character, in the same order.
    rw [ahead]
    simp only [Lexeme.first, symbol, Option.map_none]
    by_cases digit : x.isDigit
    · simp only [digit, ↓reduceIte]
      exact integer_ok fits along ahead digit
    · simp only [digit, Bool.false_eq_true, ↓reduceIte]
      by_cases quote : x = '"'
      · subst quote
        simp only [↓reduceIte]
        by_cases closed : (rest.dropWhile Lexeme.insideString).head? = some '"'
        · rw [if_pos closed]
          exact string_ok fits along ahead path closed
        · rw [if_neg closed]
          exact string_unclosed fits along ahead path closed
      · simp only [quote, ↓reduceIte]
        by_cases start : Lexeme.startsWord x
        · simp only [start, ↓reduceIte]
          exact word_ok fits along ahead start
        · simp only [start, Bool.false_eq_true, ↓reduceIte]
          by_cases hash : x = '#'
          · subst hash
            simp only [↓reduceIte]
            exact comment_ok fits along ahead
          · simp only [hash, ↓reduceIte]
            rfl

end Reading

section
variable {text before : List Char} {c : Cursor}

theorem nextToken_ok (fits : Fits text) (along : Along text before c) (path : Path) :
    nextToken path text c =
      Reading.outcome path c.skipBlanks (Lexeme.first c.skipBlanks.rest) := by
  obtain ⟨gap, here⟩ := along.skipBlanks
  rw [nextToken, skipBlanks_ok fits along (Nat.lt_succ_self _), ok_bind, offset_ok here, ok_bind,
    location_ok here, ok_bind]
  cases ahead : c.skipBlanks.rest with
  | nil =>
    rw [Cursor.atEnd, ahead]
    rfl
  | cons x rest =>
    have solid : c.skipBlanks.atEnd = false := by rw [Cursor.atEnd, ahead]; rfl
    rw [solid, ← ahead]
    exact Reading.next_ok fits here ahead path

theorem tokensFrom_ok (fits : Fits text) (along : Along text before c) (path : Path) {rounds : Nat}
    (enough : c.rest.length < rounds) : tokensFrom path text rounds c =
      (ShiFormat.tokensFrom path c).mapError .refused := by
  induction rounds generalizing before c with
  | zero => omega
  | succ rounds ih =>
    rw [tokensFrom, nextToken_ok fits along]
    cases read : Lexeme.first c.skipBlanks.rest with
    | endOfInput =>
      rw [tokensFrom_end read]
      rfl
    | stray symbol =>
      rw [tokensFrom_stray read]
      rfl
    | unclosed n =>
      rw [tokensFrom_unclosed read]
      rfl
    | token kind n =>
      obtain ⟨gap, here⟩ := along.skipBlanks
      have onward := here.advanceBy (plain_of_first read)
      have shorter := rest_after_token_shorter read
      have later := ih onward (by omega)
      have more : (Token.ofText kind (String.ofList (c.skipBlanks.rest.take n))
          (c.skipBlanks.location path)).isEndOfInput = false := by
        simpa [Token.ofText, Token.isEndOfInput] using not_end_of_first read
      rw [tokensFrom_token read]
      simp only [Reading.outcome, Reading.yielded, ok_bind, more, later]
      cases ShiFormat.tokensFrom path (c.skipBlanks.advanceBy n) <;> rfl

end

/-- The lexer that checks itself yields what the plain lexer yields, and is not at fault. -/
theorem tokenize_ok (path : Path) {text : String} (fits : Fits text.toList) :
    tokenize path text = (ShiFormat.tokenize path text).mapError .refused :=
  tokensFrom_ok fits ⟨.start text.toList, rfl⟩ path (Nat.lt_succ_self _)

end Checked
end ShiFormat
