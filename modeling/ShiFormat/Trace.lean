import ShiFormat.Log
import ShiFormat.Parser
import ShiFormat.Rendering

/-!
What lexing, parsing and formatting tell about themselves. Which statements a parser entered can be read off
the tokens it consumed, since each of them belongs to exactly one kind of place: a word `if` starts
a statement unless it follows `else`, an identifier starts one before an assignment operator, and
before a parenthesis unless it stands where an operand is due.
-/
namespace ShiFormat

/-- The kinds after which an operand is due. -/
def TokenKind.expectsOperand (kind : TokenKind) : Bool :=
  kind.precedence?.isSome || kind == .comma || kind == .leftParen || kind == .leftBracket

/-- The event for a token that starts a statement, given its neighbours. -/
def statementStart? (before : Option TokenKind) (token : Token) (after : Option TokenKind) :
    Option Event :=
  if token.kind = .ifWord then
    if before = some .elseWord then none else some (.statementStarted token.location none)
  else if token.kind = .identifier then
    match after with
    | some kind =>
      if kind ∈ TokenKind.assignmentOperators ∨
          kind = .leftParen ∧ before.any TokenKind.expectsOperand = false then
        some (.statementStarted token.location (some kind))
      else none
    | none => none
  else none

def statementStarts (before : Option TokenKind) : List Token → List Event
  | [] => []
  | token :: more =>
    (statementStart? before token (more.head?.map Token.kind)).toList ++
      statementStarts (some token.kind) more

def tokenizeEvents (path : Path) : Except SourceError (List Token) → List Event
  | .ok tokens => [.tokensRead path tokens.length]
  | .error _ => []

/-- The events of parsing, for the first tree asked of a parser. -/
def Parser.events (p : Parser) : List Event :=
  let (result, after) := p.parse
  let consumed := p.rest.take (p.rest.length - after.rest.length)
  let done := match result with
    | .ok tree => [.fileParsed p.finish ((tree.statements?.map List.length).getD 0)]
    | .error _ => []
  statementStarts none consumed ++ done

def Rendering.events (r : Rendering) : List Event :=
  match r.brokenOff with
  | some (.misplaced nodeName) => [.statementMisplaced nodeName]
  | _ => []

end ShiFormat
