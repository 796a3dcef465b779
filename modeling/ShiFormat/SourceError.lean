import ShiFormat.Token

/-!
What can be wrong with a build file, where, and how it is said.
-/
namespace ShiFormat

/-- An expression that the parser needed and did not find. -/
inductive Missing where
  | rightHandSide
  | condition
  | arrayIndex
  | expression
  | parenthesized
  | notOperand
  | rightOperand
  deriving DecidableEq, Repr

def Missing.message : Missing → String
  | .rightHandSide => "missing right-hand side of assignment"
  | .condition => "missing condition"
  | .arrayIndex => "missing array index"
  | .expression => "missing expression"
  | .parenthesized => "missing expression in parentheses"
  | .notOperand => "missing operand of \"!\""
  | .rightOperand => "missing right operand"

inductive SourceError where
  | unexpectedSymbol (symbol : Char) (location : Location) (expected : List Char)
  | unexpectedToken (token : Token) (expected : List TokenKind)
  | unexpectedEnd (location : Location) (expected : List TokenKind)
  | nestingTooDeep (limit : Nat) (location : Location)
  | semantic (message : String) (location : Location)

namespace SourceError

def location : SourceError → Location
  | .unexpectedSymbol _ location _ => location
  | .unexpectedToken token _ => token.location
  | .unexpectedEnd location _ => location
  | .nestingTooDeep _ location => location
  | .semantic _ location => location

/-- A token is covered whole, any other place by one column. -/
def span : SourceError → Span
  | .unexpectedToken token _ => token.span
  | error => Span.across error.location 1

def isControl (c : Char) : Bool := c.val < 0x20 || (0x7f ≤ c.val && c.val ≤ 0x9f)

/-- A control character is written as its number, with at least two hexadecimal digits. -/
def printable (c : Char) : String :=
  if isControl c then
    let digits := Nat.toDigits 16 c.toNat
    "\\x" ++ String.ofList (List.replicate (2 - digits.length) '0' ++ digits)
  else c.toString

def expectedSymbols : List Char → String
  | [] => ""
  | [c] => s!", expected symbol {printable c}"
  | symbols => ", expected one of symbols: " ++ " ".intercalate (symbols.map printable)

def expectedKinds : List TokenKind → String
  | [] => ""
  | [kind] => s!", expected token type: {kind}"
  | kinds =>
    ", expected one of token types: " ++ ", ".intercalate (kinds.map TokenKind.describe)

def message : SourceError → String
  | .unexpectedSymbol symbol location expected =>
    s!"Syntax error: unexpected symbol {printable symbol} at {location}" ++
      expectedSymbols expected
  | .unexpectedToken token expected =>
    s!"Syntax error: unexpected token {token} at {token.location}" ++ expectedKinds expected
  | .unexpectedEnd location expected =>
    s!"Syntax error: unexpected end of tokens at {location}" ++ expectedKinds expected
  | .nestingTooDeep limit location =>
    s!"Syntax error: nesting deeper than {limit} levels at {location}"
  | .semantic message location => s!"Semantic error: {message} at {location}"

end SourceError
end ShiFormat
