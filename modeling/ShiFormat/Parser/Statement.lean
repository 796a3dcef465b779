import ShiFormat.Parser.Expression

/-!
Statements and blocks. A statement is chosen by its first token and, after an identifier, by the
second one.
-/
namespace ShiFormat.Parse

/-- The kinds that make a statement of the identifier before them. -/
def continuations : List TokenKind := [.leftParen, .equal, .plusEquals, .minusEquals]

section
variable (expr : ExpressionRule) (block : Parse (List Node))

/-- `if ( test ) body` -/
def guarded : Parse (Node × List Node) := do
  let _ ← consume [.ifWord]
  let _ ← consume [.leftParen]
  let test ← required expr 0 .condition
  let _ ← consume [.rightParen]
  let body ← block
  pure (test, body)

def alternative : List Token → Parse Alternative
  | [] => pure .absent
  | _ :: budget => do
    if ← nextIs .elseWord then
      let _ ← consume [.elseWord]
      if ← nextIs .ifWord then
        let (test, body) ← guarded expr block
        let more ← alternative budget
        pure (.elseIf test body more)
      else
        let body ← block
        pure (.elseBlock body)
    else pure .absent

def condition : Parse Node := do
  let (test, body) ← guarded expr block
  let more ← alternative expr block (← unread)
  pure (.condition test body more)

def assignment : Parse Node := do
  let target ← access expr
  let op ← consume TokenKind.assignmentOperators
  let value ← required expr 0 .rightHandSide
  pure (.assignment op target value)

def callStatement : Parse Node := do
  let (id, arguments) ← callHead expr
  if ← nextIs .leftBrace then
    let body ← block
    pure (.call id arguments (some body))
  else pure (.call id arguments none)

/-- Yields nothing, and reads nothing, where no statement can start. -/
def statement : Parse (Option Node) := do
  match ← kindAt 0 with
  | some .ifWord => do
    let node ← condition expr block
    pure (some node)
  | some .identifier => do
    let next ← expectAt 1 continuations
    let node ← if next.kind = .leftParen then callStatement expr block else assignment expr
    pure (some node)
  | _ => pure none

def statements : List Token → Parse (List Node)
  | [] => pure []
  | _ :: budget => do
    match ← statement expr block with
    | none => pure []
    | some first => do
      let more ← statements budget
      pure (first :: more)

def braced : Parse (List Node) := do
  let _ ← consume [.leftBrace]
  let body ← statements expr block (← unread)
  let _ ← consume [.rightBrace]
  pure body

end

/-- A block with this many nesting levels to spare. -/
def block : Nat → Parse (List Node)
  | 0 => tooDeep
  | levels + 1 => deepen (braced (expression levels) (block levels))

/-- Statements up to the end of the input. -/
def file (levels : Nat) : Parse (List Node) := do
  let body ← statements (expression levels) (block levels) (← unread)
  match ← unread with
  | [] => pure body
  | token :: _ => fail (.unexpectedToken token [.ifWord, .identifier])

end ShiFormat.Parse
