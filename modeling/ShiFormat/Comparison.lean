import ShiFormat.Node

/-!
Two ways to compare trees: equivalence looks at shape, token kinds and token texts; equality also
looks at where the tokens stood.
-/
namespace ShiFormat

mutual

/-- Same shape, with `same` holding between the tokens at each position. -/
def Node.agrees (same : Token → Token → Bool) : Node → Node → Bool
  | .arrayAccess a i, .arrayAccess b j => same a b && i.agrees same j
  | .assignment a l r, .assignment b m s => same a b && l.agrees same m && r.agrees same s
  | .binaryOp a l r, .binaryOp b m s => same a b && l.agrees same m && r.agrees same s
  | .call a xs none, .call b ys none => same a b && allAgree same xs ys
  | .call a xs (some k), .call b ys (some l) =>
    same a b && allAgree same xs ys && allAgree same k l
  | .condition c k x, .condition d l y =>
    c.agrees same d && allAgree same k l && x.agrees same y
  | .expressionList xs, .expressionList ys => allAgree same xs ys
  | .identifier a, .identifier b => same a b
  | .literal a, .literal b => same a b
  | .notOp a, .notOp b => a.agrees same b
  | .scopeAccess a i, .scopeAccess b j => same a b && same i j
  | .statementList xs, .statementList ys => allAgree same xs ys
  | _, _ => false

def Alternative.agrees (same : Token → Token → Bool) : Alternative → Alternative → Bool
  | .absent, .absent => true
  | .elseIf c k x, .elseIf d l y => c.agrees same d && allAgree same k l && x.agrees same y
  | .elseBlock k, .elseBlock l => allAgree same k l
  | _, _ => false

def allAgree (same : Token → Token → Bool) : List Node → List Node → Bool
  | [], [] => true
  | a :: as, b :: bs => a.agrees same b && allAgree same as bs
  | _, _ => false

end

def Node.equivalent (a b : Node) : Bool := a.agrees Token.sameAs b

instance : BEq Node := ⟨fun a b => a.agrees (· == ·) b⟩

mutual

/-- The tree with a change made to each of its tokens. -/
def Node.mapTokens (f : Token → Token) : Node → Node
  | .arrayAccess id index => .arrayAccess (f id) (index.mapTokens f)
  | .assignment op target value => .assignment (f op) (target.mapTokens f) (value.mapTokens f)
  | .binaryOp op left right => .binaryOp (f op) (left.mapTokens f) (right.mapTokens f)
  | .call id arguments none => .call (f id) (mapTokensOfAll f arguments) none
  | .call id arguments (some block) =>
    .call (f id) (mapTokensOfAll f arguments) (some (mapTokensOfAll f block))
  | .condition test body alternative =>
    .condition (test.mapTokens f) (mapTokensOfAll f body) (alternative.mapTokens f)
  | .expressionList items => .expressionList (mapTokensOfAll f items)
  | .identifier id => .identifier (f id)
  | .literal value => .literal (f value)
  | .notOp operand => .notOp (operand.mapTokens f)
  | .scopeAccess id inner => .scopeAccess (f id) (f inner)
  | .statementList items => .statementList (mapTokensOfAll f items)

def Alternative.mapTokens (f : Token → Token) : Alternative → Alternative
  | .absent => .absent
  | .elseIf test body alternative =>
    .elseIf (test.mapTokens f) (mapTokensOfAll f body) (alternative.mapTokens f)
  | .elseBlock body => .elseBlock (mapTokensOfAll f body)

def mapTokensOfAll (f : Token → Token) : List Node → List Node
  | [] => []
  | node :: more => node.mapTokens f :: mapTokensOfAll f more

end

/-- The tree as if none of its tokens had stood anywhere. -/
def Node.unplaced (n : Node) : Node := n.mapTokens fun t => { t with location := Location.unknown }

end ShiFormat
