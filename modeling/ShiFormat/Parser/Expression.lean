import ShiFormat.Node
import ShiFormat.Parser.Basic

/-!
Expressions. Binary operators are read by precedence climbing: an expression of minimum `m` takes
only operators that bind tighter than `m`, and folds them to the left. A negation takes its operand
alone and ends the expression.

The rules are parameters of one another only downwards: each takes the rule for an expression one
nesting level deeper, and the levels left bound the recursion. Repetitions run along the unread
tokens, of which each round reads at least one.
-/
namespace ShiFormat.Parse

/-- The rule for an expression that takes only operators binding tighter than a given minimum.
It yields nothing, and reads nothing, where no expression can start. -/
abbrev ExpressionRule : Type := Nat → Parse (Option Node)

/-- The precedence of `!`, above that of every binary operator. -/
def notPrecedence : Nat := 7

theorem notPrecedence_eq : TokenKind.bang.precedence? = some notPrecedence := rfl

variable (expr : ExpressionRule)

def required (minimum : Nat) (missing : Missing) : Parse Node := do
  let location ← here
  match ← expr minimum with
  | some node => pure node
  | none => fail (.semantic missing.message location)

/-- The items after the first one; a comma may follow the last. -/
def moreItems : List Token → Parse (List Node)
  | [] => pure []
  | _ :: budget => do
    if ← nextIs .comma then
      let _ ← consume [.comma]
      match ← expr 0 with
      | some item => do
        let more ← moreItems budget
        pure (item :: more)
      | none => pure []
    else pure []

def items : Parse (List Node) := do
  let first ← required expr 0 .expression
  let more ← moreItems expr (← unread)
  pure (first :: more)

/-- Items up to a closing token, or none at all. -/
def itemsUntil (close : TokenKind) : Parse (List Node) := do
  if ← nextIs close then pure [] else items expr

/-- The name and the arguments of a call. -/
def callHead : Parse (Token × List Node) := do
  let id ← consume [.identifier]
  let _ ← consume [.leftParen]
  let arguments ← itemsUntil expr .rightParen
  let _ ← consume [.rightParen]
  pure (id, arguments)

/-- An identifier, an element of an array or a member of a scope. -/
def access : Parse Node := do
  let id ← consume [.identifier]
  if ← nextIs .leftBracket then
    let _ ← consume [.leftBracket]
    let index ← required expr 0 .arrayIndex
    let _ ← consume [.rightBracket]
    pure (.arrayAccess id index)
  else if ← nextIs .dot then
    let _ ← consume [.dot]
    let inner ← consume [.identifier]
    pure (.scopeAccess id inner)
  else pure (.identifier id)

def named : Parse Node := do
  if (← kindAt 1) = some .leftParen then
    let (id, arguments) ← callHead expr
    pure (.call id arguments none)
  else access expr

def parenthesized : Parse Node := do
  let _ ← consume [.leftParen]
  let inner ← required expr 0 .parenthesized
  let _ ← consume [.rightParen]
  pure inner

def bracketed : Parse Node := do
  let _ ← consume [.leftBracket]
  let elements ← itemsUntil expr .rightBracket
  let _ ← consume [.rightBracket]
  pure (.expressionList elements)

def negation : Parse Node := do
  let _ ← consume [.bang]
  let operand ← required expr notPrecedence .notOperand
  pure (.notOp operand)

/-- Operators binding tighter than the minimum, and their right operands. -/
def operators (minimum : Nat) : List Token → Node → Parse Node
  | [], left => pure left
  | _ :: budget, left => do
    match ← kindAt 0 with
    | none => pure left
    | some kind =>
      match kind.binaryPrecedence? with
      | none => pure left
      | some precedence =>
        if precedence ≤ minimum then pure left
        else do
          let op ← consume [kind]
          let right ← required expr precedence .rightOperand
          operators minimum budget (.binaryOp op left right)

def chain (minimum : Nat) (first : Parse Node) : Parse (Option Node) := do
  let left ← first
  let node ← operators expr minimum (← unread) left
  pure (some node)

/-- One expression, given the rule for those nested in it. -/
def expressionBody : ExpressionRule := fun minimum => do
  match ← kindAt 0 with
  | some .bang => do
    let node ← negation expr
    pure (some node)
  | some .identifier => chain expr minimum (named expr)
  | some .leftParen => chain expr minimum (parenthesized expr)
  | some .leftBracket => chain expr minimum (bracketed expr)
  | some kind =>
    if kind ∈ TokenKind.literals then
      chain expr minimum do
        let value ← consume TokenKind.literals
        pure (.literal value)
    else pure none
  | none => pure none

/-- An expression with this many nesting levels to spare. -/
def expression : Nat → ExpressionRule
  | 0 => fun _ => tooDeep
  | levels + 1 => fun minimum => deepen (expressionBody (expression levels) minimum)

end ShiFormat.Parse
