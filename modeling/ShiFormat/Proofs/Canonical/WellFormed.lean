import ShiFormat.Comparison
import ShiFormat.Layout
import ShiFormat.Proofs.Lexing.Reading

/-!
Well-formed trees: the ones that stand for a file. Their statements and expressions are of the
shapes that a file can have, and each of their tokens has a text that is read as that token.
-/
namespace ShiFormat

/-- The token is of one of these kinds, and is read as such. -/
def Token.spells (kinds : List TokenKind) (t : Token) : Bool := t.kind ∈ kinds && t.legible

def Token.spellsName (t : Token) : Bool := t.spells [.identifier]

def Token.spellsOperator (t : Token) : Bool := t.kind.binaryPrecedence?.isSome && t.legible

mutual

def Node.formsExpression : Node → Bool
  | .arrayAccess id index => id.spellsName && index.formsExpression
  | .binaryOp op left right => op.spellsOperator && left.formsExpression && right.formsExpression
  | .call id arguments none => id.spellsName && allExpressions arguments
  | .expressionList items => allExpressions items
  | .identifier id => id.spellsName
  | .literal value => value.spells TokenKind.literals
  | .notOp operand => operand.formsExpression
  | .scopeAccess id inner => id.spellsName && inner.spellsName
  | .call _ _ (some _) | .assignment .. | .condition .. | .statementList .. => false

def allExpressions : List Node → Bool
  | [] => true
  | item :: more => item.formsExpression && allExpressions more

end

def Node.formsTarget : Node → Bool
  | .identifier id => id.spellsName
  | _ => false

mutual

def Node.formsStatement : Node → Bool
  | .assignment op target value =>
    target.formsTarget && op.spells TokenKind.assignmentOperators && value.formsExpression
  | .call id arguments none => id.spellsName && allExpressions arguments
  | .call id arguments (some block) =>
    id.spellsName && allExpressions arguments && allStatements block
  | .condition test body alternative =>
    test.formsExpression && allStatements body && alternative.isFormed
  | .arrayAccess .. | .binaryOp .. | .expressionList .. | .identifier _ | .literal _ => false
  | .notOp _ | .scopeAccess .. | .statementList _ => false

def Alternative.isFormed : Alternative → Bool
  | .absent => true
  | .elseIf test body alternative =>
    test.formsExpression && allStatements body && alternative.isFormed
  | .elseBlock body => allStatements body

def allStatements : List Node → Bool
  | [] => true
  | statement :: more => statement.formsStatement && allStatements more

end

/-- A list of statements, all of them well-formed. -/
def Node.wellFormed : Node → Bool
  | .statementList items => allStatements items
  | _ => false

mutual

/-- The levels of nesting that open inside an expression, without its own, in the text of its
layout. -/
def Node.innerLevels : Node → Nat
  | .arrayAccess _ index => index.innerLevels + 1
  | .binaryOp op left right =>
    max (left.innerLevels + (left.leftNeedsParens op.kind).toNat)
      (right.innerLevels + 1 + (right.rightNeedsParens op.kind).toNat)
  | .call _ arguments _ => listLevels arguments
  | .expressionList items => listLevels items
  | .notOp operand => operand.innerLevels + 1 + operand.notNeedsParens.toNat
  | .identifier _ | .literal _ | .scopeAccess .. => 0
  | .assignment .. | .condition .. | .statementList .. => 0

def listLevels : List Node → Nat
  | [] => 0
  | item :: more => max (item.innerLevels + 1) (listLevels more)

end

mutual

def Node.statementLevels : Node → Nat
  | .assignment _ _ value => value.innerLevels + 1
  | .call _ arguments none => listLevels arguments
  | .call _ arguments (some block) => max (listLevels arguments) (bodyLevels block + 1)
  | .condition test body alternative =>
    max (max (test.innerLevels + 1) (bodyLevels body + 1)) alternative.levels
  | _ => 0

def Alternative.levels : Alternative → Nat
  | .absent => 0
  | .elseIf test body alternative =>
    max (max (test.innerLevels + 1) (bodyLevels body + 1)) alternative.levels
  | .elseBlock body => bodyLevels body + 1

def bodyLevels : List Node → Nat
  | [] => 0
  | statement :: more => max statement.statementLevels (bodyLevels more)

end

/-- The levels of nesting that the text of a file's layout needs. -/
def Node.levels : Node → Nat
  | .statementList items => bodyLevels items
  | _ => 0

end ShiFormat
