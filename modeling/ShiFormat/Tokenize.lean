import ShiFormat.Cursor
import ShiFormat.Lexeme
import ShiFormat.SourceError

/-!
The tokens of a text, in order, closed by one token for the end of input. Blanks between tokens
only move the places of what follows; comments are tokens.
-/
namespace ShiFormat

def Cursor.location (path : Path) (c : Cursor) : Location := ⟨some path, c.line, c.column⟩

theorem rest_after_token_shorter {c : Cursor} {kind : TokenKind} {n : Nat}
    (h : Lexeme.first c.skipBlanks.rest = .token kind n) :
    (c.skipBlanks.advanceBy n).rest.length < c.rest.length := by
  have ⟨positive, nonempty⟩ := Lexeme.first_length_pos h
  have some_left : 0 < c.skipBlanks.rest.length := List.length_pos_iff.mpr nonempty
  have skipped : c.skipBlanks.rest.length ≤ c.rest.length := by
    rw [Cursor.rest_skipBlanks]
    exact (List.dropWhile_sublist _).length_le
  rw [Cursor.rest_advanceBy, List.length_drop]
  omega

def tokensFrom (path : Path) (c : Cursor) : Except SourceError (List Token) :=
  let here := c.skipBlanks
  let location := here.location path
  match _h : Lexeme.first here.rest with
  | .endOfInput => .ok [Token.endOfInput location]
  | .stray symbol => .error (.unexpectedSymbol symbol location [])
  | .unclosed length =>
    let stop := here.advanceBy length
    .error (.unexpectedSymbol stop.peek (stop.location path) ['"'])
  | .token kind length =>
    let token := Token.ofText kind (String.ofList (here.rest.take length)) location
    match tokensFrom path (here.advanceBy length) with
    | .ok more => .ok (token :: more)
    | .error error => .error error
termination_by c.rest.length
decreasing_by exact rest_after_token_shorter _h

def tokenize (path : Path) (text : String) : Except SourceError (List Token) :=
  tokensFrom path (Cursor.atStart text.toList)

end ShiFormat
