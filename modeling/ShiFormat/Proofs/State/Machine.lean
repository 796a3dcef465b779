import ShiFormat.Parser
import ShiFormat.Proofs.Fault

/-!
The parser as a machine. It keeps all its tokens and stands at one of them, so many levels deep;
the machine writes down every place where it stands. Levels are counted up and down one by one, and
whatever a step takes for granted is checked: a check that fails is a fault of the machine, not an
error of its input.
-/
namespace ShiFormat

structure Window where
  tokens : List Token
  finish : Location

def Window.ofTokens (tokens : List Token) : Window :=
  ⟨tokens.filter Parser.isKept, Parser.finishOf tokens⟩

/-- How many tokens have been read, and how many levels are open. -/
structure Stand where
  current : Nat
  depth : Nat
  deriving DecidableEq, Repr

namespace Stand

def next (s : Stand) : Stand := { s with current := s.current + 1 }

def deeper (s : Stand) : Stand := { s with depth := s.depth + 1 }

def shallower (s : Stand) : Stand := { s with depth := s.depth - 1 }

@[simp] theorem next_current (s : Stand) : s.next.current = s.current + 1 := rfl

@[simp] theorem next_depth (s : Stand) : s.next.depth = s.depth := rfl

@[simp] theorem deeper_current (s : Stand) : s.deeper.current = s.current := rfl

@[simp] theorem deeper_depth (s : Stand) : s.deeper.depth = s.depth + 1 := rfl

@[simp] theorem shallower_current (s : Stand) : s.shallower.current = s.current := rfl

@[simp] theorem shallower_depth (s : Stand) : s.shallower.depth = s.depth - 1 := rfl

end Stand

def Window.unread (w : Window) (s : Stand) : List Token := w.tokens.drop s.current

/-- What a step comes to, where the machine stood after each change, and where it stands last. -/
structure Walk (α : Type) where
  result : Except Halt α
  passed : List Stand
  stand : Stand

def Machine (α : Type) : Type := Window → Stand → Walk α

namespace Machine

instance : Monad Machine where
  pure value := fun _ s => ⟨.ok value, [], s⟩
  bind first next := fun w s =>
    let before := first w s
    match before.result with
    | .ok value =>
      let after := next value w before.stand
      ⟨after.result, before.passed ++ after.passed, after.stand⟩
    | .error halt => ⟨.error halt, before.passed, before.stand⟩

variable {α : Type}

def refuse (error : SourceError) : Machine α := fun _ s => ⟨.error (.refused error), [], s⟩

def fault (f : Fault) : Machine α := fun _ s => ⟨.error (.fault f), [], s⟩

def ensure (holds : Bool) : Machine Unit := if holds then pure () else fault .assertion

def moveTo (place : Stand → Stand) : Machine Unit := fun _ s => ⟨.ok (), [place s], place s⟩

def stand : Machine Stand := fun _ s => ⟨.ok s, [], s⟩

def window : Machine Window := fun w s => ⟨.ok w, [], s⟩

/-- The token that lies `ahead` tokens after the next one. -/
def peek (ahead : Nat) : Machine (Option Token) := do
  pure (← window).tokens[(← stand).current + ahead]?

def kindAt (ahead : Nat) : Machine (Option TokenKind) := do pure ((← peek ahead).map Token.kind)

def nextIs (kind : TokenKind) : Machine Bool := do
  pure ((← peek 0).any fun token => token.kind == kind)

/-- The place of the next token, or of the end of the input. -/
def here : Machine Location := do
  pure (((← peek 0).map Token.location).getD (← window).finish)

def expectAt (ahead : Nat) (kinds : List TokenKind) : Machine Token := do
  match ← peek ahead with
  | none => refuse (.unexpectedEnd (← window).finish kinds)
  | some token =>
    if token.kind ∈ kinds then pure token else refuse (.unexpectedToken token kinds)

def consume (kinds : List TokenKind) : Machine Token := do
  let token ← expectAt 0 kinds
  moveTo Stand.next
  pure token

def enter : Machine Unit := do
  if (← stand).depth = nestingLimit then refuse (.nestingTooDeep nestingLimit (← here))
  else moveTo Stand.deeper

def leave : Machine Unit := do
  if (← stand).depth = 0 then fault .underflow
  else moveTo Stand.shallower

/-- A step one level deeper. -/
def nested (step : Machine α) : Machine α := do
  enter
  let value ← step
  leave
  pure value

/-- More rounds than any repetition takes. -/
def rounds : Machine Nat := do pure ((← window).tokens.length + 1)

def precedence (kind : TokenKind) : Machine Nat :=
  match kind.precedence? with
  | some n => pure n
  | none => fault (.unranked kind)

/-- The kinds that may stand between two operands. -/
def betweenOperands : List TokenKind :=
  [.plus, .minus, .equalEqual, .notEqual, .lessEqual, .greaterEqual, .less, .greater, .andAnd,
    .orOr]

def binaryPrecedence (kind : TokenKind) : Machine (Option Nat) :=
  if kind ∈ betweenOperands then some <$> precedence kind else pure none

abbrev Rule : Type := Nat → Machine (Option Node)

section
variable (expr : Rule)

def required (minimum : Nat) (missing : Missing) : Machine Node := do
  let location ← here
  match ← expr minimum with
  | some node => pure node
  | none => refuse (.semantic missing.message location)

def moreItems : Nat → Machine (List Node)
  | 0 => fault .endless
  | more + 1 => do
    if ← nextIs .comma then
      let _ ← consume [.comma]
      match ← expr 0 with
      | some item => do
        let others ← moreItems more
        pure (item :: others)
      | none => pure []
    else pure []

def separated : Machine (List Node) := do moreItems expr (← rounds)

def items : Machine (List Node) := do
  let first ← required expr 0 .expression
  let more ← separated expr
  pure (first :: more)

def itemsUntil (close : TokenKind) : Machine (List Node) := do
  if ← nextIs close then pure [] else items expr

def callHead : Machine (Token × List Node) := do
  let id ← consume [.identifier]
  let _ ← consume [.leftParen]
  let arguments ← itemsUntil expr .rightParen
  let _ ← consume [.rightParen]
  pure (id, arguments)

def access : Machine Node := do
  let id ← consume [.identifier]
  if ← nextIs .leftBracket then
    let _ ← consume [.leftBracket]
    let index ← required expr 0 .arrayIndex
    let _ ← consume [.rightBracket]
    pure (.arrayAccess id index)
  else if ← nextIs .dot then
    let _ ← consume [.dot]
    let inner ← consume [.identifier]
    pure (.scopeAccess id inner)
  else pure (.identifier id)

def named : Machine Node := do
  if (← kindAt 1) = some .leftParen then
    let (id, arguments) ← callHead expr
    pure (.call id arguments none)
  else access expr

def parenthesized : Machine Node := do
  let _ ← consume [.leftParen]
  let inner ← required expr 0 .parenthesized
  let _ ← consume [.rightParen]
  pure inner

def bracketed : Machine Node := do
  let _ ← consume [.leftBracket]
  let elements ← itemsUntil expr .rightBracket
  let _ ← consume [.rightBracket]
  pure (.expressionList elements)

/-- A negation is only met where nothing binds tighter than it. -/
def negation (minimum : Nat) : Machine Node := do
  let op ← consume [.bang]
  let tightest ← precedence op.kind
  ensure (minimum ≤ tightest)
  let operand ← required expr tightest .notOperand
  pure (.notOp operand)

def operators (minimum : Nat) : Nat → Node → Machine Node
  | 0, _ => fault .endless
  | more + 1, left => do
    match ← kindAt 0 with
    | none => pure left
    | some kind =>
      match ← binaryPrecedence kind with
      | none => pure left
      | some precedence =>
        if precedence ≤ minimum then pure left
        else do
          let op ← consume [kind]
          let right ← required expr precedence .rightOperand
          operators minimum more (.binaryOp op left right)

def climb (minimum : Nat) (left : Node) : Machine Node := do
  operators expr minimum (← rounds) left

def chain (minimum : Nat) (first : Machine Node) : Machine (Option Node) := do
  let left ← first
  let node ← climb expr minimum left
  pure (some node)

def expressionBody : Rule := fun minimum => do
  match ← kindAt 0 with
  | some .bang => do
    let node ← negation expr minimum
    pure (some node)
  | some .identifier => chain expr minimum (named expr)
  | some .leftParen => chain expr minimum (parenthesized expr)
  | some .leftBracket => chain expr minimum (bracketed expr)
  | some kind =>
    if kind ∈ TokenKind.literals then
      chain expr minimum do
        let value ← consume TokenKind.literals
        pure (.literal value)
    else pure none
  | none => pure none

end

/-- An expression, by a recursion that may go so deep. -/
def expression : Nat → Rule
  | 0 => fun _ => fault .endless
  | deep + 1 => fun minimum => nested (expressionBody (expression deep) minimum)

section
variable (expr : Rule) (block : Machine (List Node))

def guarded : Machine (Node × List Node) := do
  let _ ← consume [.ifWord]
  let _ ← consume [.leftParen]
  let test ← required expr 0 .condition
  let _ ← consume [.rightParen]
  let body ← block
  pure (test, body)

def alternative : Nat → Machine Alternative
  | 0 => fault .endless
  | more + 1 => do
    if ← nextIs .elseWord then
      let _ ← consume [.elseWord]
      if ← nextIs .ifWord then
        let (test, body) ← guarded expr block
        let others ← alternative more
        pure (.elseIf test body others)
      else
        let body ← block
        pure (.elseBlock body)
    else pure .absent

def otherwise : Machine Alternative := do alternative expr block (← rounds)

def condition : Machine Node := do
  let (test, body) ← guarded expr block
  let more ← otherwise expr block
  pure (.condition test body more)

def assignment : Machine Node := do
  let target ← access expr
  let op ← consume TokenKind.assignmentOperators
  let value ← required expr 0 .rightHandSide
  pure (.assignment op target value)

def callStatement : Machine Node := do
  let (id, arguments) ← callHead expr
  if ← nextIs .leftBrace then
    let body ← block
    pure (.call id arguments (some body))
  else pure (.call id arguments none)

def statement : Machine (Option Node) := do
  match ← kindAt 0 with
  | some .ifWord => do
    let node ← condition expr block
    pure (some node)
  | some .identifier => do
    let next ← expectAt 1 Parse.continuations
    let node ← if next.kind = .leftParen then callStatement expr block else assignment expr
    pure (some node)
  | _ => pure none

def statements : Nat → Machine (List Node)
  | 0 => fault .endless
  | more + 1 => do
    match ← statement expr block with
    | none => pure []
    | some first => do
      let others ← statements more
      pure (first :: others)

def listing : Machine (List Node) := do statements expr block (← rounds)

def braced : Machine (List Node) := do
  let _ ← consume [.leftBrace]
  let body ← listing expr block
  let _ ← consume [.rightBrace]
  pure body

end

def block : Nat → Machine (List Node)
  | 0 => fault .endless
  | deep + 1 => nested (braced (expression deep) (block deep))

/-- Deeper than any nesting that is accepted. -/
def deepest : Nat := nestingLimit + 1

/-- One call of the parser. -/
def parse : Machine Node := do
  let body ← listing (expression deepest) (block deepest)
  match ← peek 0 with
  | some token => refuse (.unexpectedToken token [.ifWord, .identifier])
  | none => pure (.statementList body)

end Machine
end ShiFormat
