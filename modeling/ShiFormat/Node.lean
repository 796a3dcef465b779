import ShiFormat.Token

/-!
Syntax trees of build files. A tree holds the tokens that carry meaning; punctuation, grouping
parentheses and comments are not part of it.
-/
namespace ShiFormat

mutual

inductive Node where
  /-- `id [ index ]` -/
  | arrayAccess (id : Token) (index : Node)
  /-- `target op value` -/
  | assignment (op : Token) (target value : Node)
  | binaryOp (op : Token) (left right : Node)
  /-- `id ( arguments ) block`, where only calls that are statements may have a block. -/
  | call (id : Token) (arguments : List Node) (block : Option (List Node))
  /-- `if ( test ) body alternative` -/
  | condition (test : Node) (body : List Node) (alternative : Alternative)
  | expressionList (items : List Node)
  | identifier (id : Token)
  | literal (value : Token)
  | notOp (operand : Node)
  /-- `id . inner` -/
  | scopeAccess (id inner : Token)
  | statementList (items : List Node)

/-- What follows the body of a condition. -/
inductive Alternative where
  | absent
  | elseIf (test : Node) (body : List Node) (alternative : Alternative)
  | elseBlock (body : List Node)

end

namespace Node

def name : Node → String
  | .arrayAccess .. => "ArrayAccess"
  | .assignment .. => "Assignment"
  | .binaryOp .. => "BinaryOp"
  | .call .. => "Call"
  | .condition .. => "Condition"
  | .expressionList .. => "ExpressionList"
  | .identifier .. => "Identifier"
  | .literal .. => "Literal"
  | .notOp .. => "Not"
  | .scopeAccess .. => "ScopeAccess"
  | .statementList .. => "StatementList"

def isAssignment : Node → Bool
  | .assignment .. => true
  | _ => false

def isCall : Node → Bool
  | .call .. => true
  | _ => false

def isCondition : Node → Bool
  | .condition .. => true
  | _ => false

def isStatement (n : Node) : Bool := n.isAssignment || n.isCall || n.isCondition

def statements? : Node → Option (List Node)
  | .statementList items => some items
  | _ => none

end Node

mutual

/-- The tokens a tree stores, in source order. -/
def Node.tokens : Node → List Token
  | .arrayAccess id index => id :: index.tokens
  | .assignment op target value => target.tokens ++ op :: value.tokens
  | .binaryOp op left right => left.tokens ++ op :: right.tokens
  | .call id arguments none => id :: tokensOfAll arguments
  | .call id arguments (some block) => id :: (tokensOfAll arguments ++ tokensOfAll block)
  | .condition test body alternative =>
    test.tokens ++ tokensOfAll body ++ alternative.tokens
  | .expressionList items => tokensOfAll items
  | .identifier id => [id]
  | .literal value => [value]
  | .notOp operand => operand.tokens
  | .scopeAccess id inner => [id, inner]
  | .statementList items => tokensOfAll items

def Alternative.tokens : Alternative → List Token
  | .absent => []
  | .elseIf test body alternative => test.tokens ++ tokensOfAll body ++ alternative.tokens
  | .elseBlock body => tokensOfAll body

def tokensOfAll : List Node → List Token
  | [] => []
  | node :: more => node.tokens ++ tokensOfAll more

end
end ShiFormat
