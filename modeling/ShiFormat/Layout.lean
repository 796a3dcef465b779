import ShiFormat.Node

/-!
How a tree is laid out as text: its tokens with the punctuation, spaces, line breaks and
indentation around them, independent of how wide the indentation is.

Parentheses are put around an operand only where its operator would otherwise be taken apart. A
layout breaks off at a statement inside an expression, and at an operator that has no precedence.
-/
namespace ShiFormat

/-- Why a layout breaks off. -/
inductive Break where
  | misplaced (nodeName : String)
  | unranked (kind : TokenKind)
  deriving DecidableEq, Repr

inductive Piece where
  | token (kind : TokenKind) (text : String)
  | space
  | newline
  | indent (level : Nat)
  /-- A parenthesis that only groups, and belongs to no call or condition. -/
  | openGroup
  | closeGroup
  | stop (reason : Break)
  deriving DecidableEq, Repr

namespace Piece

/-- The piece of a kind with a fixed spelling. -/
def mark (kind : TokenKind) : Piece := .token kind (kind.spelling?.getD "")

def ofToken (t : Token) : Piece := .token t.kind t.value

def spaced (t : Token) : List Piece := [.space, .ofToken t, .space]

def grouped (parens : Bool) (inside : List Piece) : List Piece :=
  if parens then .openGroup :: inside ++ [.closeGroup] else inside

/-- `if ( test )` and the space before a block. -/
def guarded (test : List Piece) : List Piece :=
  mark .ifWord :: .space :: mark .leftParen :: test ++ [mark .rightParen, .space]

/-- Lines between braces, of which the closing one stands at the level of the block. -/
def braced (level : Nat) (lines : List Piece) : List Piece :=
  mark .leftBrace :: .newline :: lines ++ [.indent level, mark .rightBrace]

end Piece

namespace Node
open Piece

/-- The operator of a node that joins two operands. -/
def operator? : Node → Option TokenKind
  | .binaryOp op _ _ => some op.kind
  | _ => none

/-- A left operand keeps parentheses if its operator binds looser, or if it is a negation, which
would end the expression. -/
def leftNeedsParens (op : TokenKind) : Node → Bool
  | .binaryOp inner _ _ => inner.kind.rank < op.rank
  | .notOp _ => true
  | _ => false

/-- A right operand keeps parentheses unless its operator binds tighter. -/
def rightNeedsParens (op : TokenKind) : Node → Bool
  | .binaryOp inner _ _ => inner.kind.rank ≤ op.rank
  | _ => false

def notNeedsParens : Node → Bool
  | .binaryOp .. => true
  | _ => false

/-- Breaks for the operators that are compared here and have no precedence. -/
def unranked (op : Token) (left right : Node) : List Piece :=
  ((op.kind :: left.operator?.toList ++ right.operator?.toList).filter
    fun kind => kind.precedence?.isNone).map fun kind => .stop (.unranked kind)

mutual

def expressionLayout : Node → List Piece
  | .arrayAccess id index =>
    ofToken id :: mark .leftBracket :: index.expressionLayout ++ [mark .rightBracket]
  | .binaryOp op left right =>
    unranked op left right ++
      grouped (left.leftNeedsParens op.kind) left.expressionLayout ++
      spaced op ++
      grouped (right.rightNeedsParens op.kind) right.expressionLayout
  | .call id arguments _ =>
    ofToken id :: mark .leftParen :: listLayout arguments ++ [mark .rightParen]
  | .expressionList items =>
    mark .leftBracket :: listLayout items ++ [mark .rightBracket]
  | .identifier id => [ofToken id]
  | .literal value => [ofToken value]
  | .notOp operand =>
    mark .bang :: grouped operand.notNeedsParens operand.expressionLayout
  | .scopeAccess id inner => [ofToken id, mark .dot, ofToken inner]
  | .assignment .. => [.stop (.misplaced "Assignment")]
  | .condition .. => [.stop (.misplaced "Condition")]
  | .statementList .. => [.stop (.misplaced "StatementList")]

/-- Items with commas between them. -/
def listLayout : List Node → List Piece
  | [] => []
  | first :: more => first.expressionLayout ++ moreLayout more

def moreLayout : List Node → List Piece
  | [] => []
  | item :: more => mark .comma :: .space :: item.expressionLayout ++ moreLayout more

end

mutual

/-- A statement on lines of its own. -/
def statementLayout (level : Nat) : Node → List Piece
  | .assignment op target value =>
    .indent level :: target.expressionLayout ++ spaced op ++ value.expressionLayout ++ [.newline]
  | .call id arguments none =>
    .indent level :: (call id arguments none).expressionLayout ++ [.newline]
  | .call id arguments (some body) =>
    .indent level :: (call id arguments none).expressionLayout ++
      .space :: braced level (statementsLayout (level + 1) body) ++ [.newline]
  | .condition test body alternative =>
    .indent level :: guarded test.expressionLayout ++
      braced level (statementsLayout (level + 1) body) ++
      alternativeLayout level alternative ++ [.newline]
  | .statementList body =>
    .indent level :: braced level (statementsLayout (level + 1) body) ++ [.newline]
  | other => .indent level :: other.expressionLayout ++ [.newline]

/-- What follows the closing brace of a condition, on the same line. -/
def alternativeLayout (level : Nat) : Alternative → List Piece
  | .absent => []
  | .elseIf test body alternative =>
    .space :: mark .elseWord :: .space :: guarded test.expressionLayout ++
      braced level (statementsLayout (level + 1) body) ++ alternativeLayout level alternative
  | .elseBlock body =>
    .space :: mark .elseWord :: .space :: braced level (statementsLayout (level + 1) body)

def statementsLayout (level : Nat) : List Node → List Piece
  | [] => []
  | first :: more => first.statementLayout level ++ statementsLayout level more

end

/-- A list of statements or a single one is laid out in lines, any other node as an expression. -/
def layout : Node → List Piece
  | .statementList items => statementsLayout 0 items
  | node => if node.isStatement then node.statementLayout 0 else node.expressionLayout

end Node
end ShiFormat
