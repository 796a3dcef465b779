import ShiFormat.TokenKind

/-!
What a text begins with, blanks aside: the longest token there, or the reason there is none.
-/
namespace ShiFormat

inductive Lexeme where
  /-- A token of this kind and this many characters. -/
  | token (kind : TokenKind) (length : Nat)
  /-- A string that its line does not close, with the number of its characters on that line. -/
  | unclosed (length : Nat)
  /-- A character that begins no token. -/
  | stray (symbol : Char)
  | endOfInput
  deriving DecidableEq, Repr

namespace Lexeme

/-- The kinds spelled with symbols, the longer spellings first. -/
def symbols : List TokenKind :=
  [.plusEquals, .minusEquals, .notEqual, .equalEqual, .lessEqual, .greaterEqual, .andAnd, .orOr,
    .leftBrace, .rightBrace, .leftParen, .rightParen, .leftBracket, .rightBracket, .dot, .comma,
    .plus, .minus, .bang, .equal, .less, .greater]

def spellings : List (List Char × TokenKind) :=
  symbols.filterMap fun kind => kind.spelling?.map fun text => (text.toList, kind)

def symbol? (text : List Char) : Option (List Char × TokenKind) :=
  spellings.find? fun entry => entry.1.isPrefixOf text

def startsWord (c : Char) : Bool := c.isAlpha || c == '_'

def continuesWord (c : Char) : Bool := c.isAlphanum || c == '_'

def insideString (c : Char) : Bool := c != '"' && c != '\n'

def first : List Char → Lexeme
  | [] => .endOfInput
  | c :: rest =>
    match symbol? (c :: rest) with
    | some (spelling, kind) => .token kind spelling.length
    | none =>
      if c.isDigit then .token .integer ((rest.takeWhile Char.isDigit).length + 1)
      else if c = '"' then
        let body := rest.takeWhile insideString
        if (rest.dropWhile insideString).head? = some '"' then .token .string (body.length + 2)
        else .unclosed (body.length + 1)
      else if startsWord c then
        let word := c :: rest.takeWhile continuesWord
        .token ((TokenKind.keyword? (String.ofList word)).getD .identifier) word.length
      else if c = '#' then .token .comment ((rest.takeWhile (· != '\n')).length + 1)
      else .stray c

theorem spelling_pos {text : List Char} {entry : List Char × TokenKind}
    (found : symbol? text = some entry) : 0 < entry.1.length := by
  have member := List.mem_of_find?_eq_some found
  have all : ∀ e ∈ spellings, 0 < e.1.length := by decide
  exact all entry member

theorem first_length_pos {text : List Char} {kind : TokenKind} {n : Nat}
    (h : first text = .token kind n) : 0 < n ∧ text ≠ [] := by
  cases text with
  | nil => simp [first] at h
  | cons c rest =>
    refine ⟨?_, by simp⟩
    simp only [first] at h
    split at h
    · next spelling found hs =>
      have := spelling_pos hs
      simp_all
    · repeat' split at h
      all_goals simp at h
      all_goals omega

end Lexeme
end ShiFormat
