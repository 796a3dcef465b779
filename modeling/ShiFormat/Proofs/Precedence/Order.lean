import ShiFormat.Layout

/-!
Order of operations in a tree: what holds of each operation and its two operands.
-/
namespace ShiFormat

mutual

/-- The test holds of every operation of the tree, given its operator and its operands. -/
def Node.everyOperation (test : TokenKind → Node → Node → Bool) : Node → Bool
  | .arrayAccess _ index => index.everyOperation test
  | .assignment _ target value => target.everyOperation test && value.everyOperation test
  | .binaryOp op left right =>
    test op.kind left right && left.everyOperation test && right.everyOperation test
  | .call _ arguments none => everyOperationOf test arguments
  | .call _ arguments (some block) => everyOperationOf test arguments && everyOperationOf test block
  | .condition condition body alternative =>
    condition.everyOperation test && everyOperationOf test body && alternative.everyOperation test
  | .expressionList items => everyOperationOf test items
  | .identifier _ | .literal _ | .scopeAccess .. => true
  | .notOp operand => operand.everyOperation test
  | .statementList items => everyOperationOf test items

def Alternative.everyOperation (test : TokenKind → Node → Node → Bool) : Alternative → Bool
  | .absent => true
  | .elseIf condition body alternative =>
    condition.everyOperation test && everyOperationOf test body && alternative.everyOperation test
  | .elseBlock body => everyOperationOf test body

def everyOperationOf (test : TokenKind → Node → Node → Bool) : List Node → Bool
  | [] => true
  | node :: more => node.everyOperation test && everyOperationOf test more

end

namespace Node

/-- The tree is an operation whose operator binds looser than this precedence. -/
def looser (precedence : Nat) (e : Node) : Bool :=
  e.operator?.any fun kind => kind.rank < precedence

/-- An operation on the left binds no looser than the operator it stands before. -/
def leftHolds (op : TokenKind) (left _right : Node) : Bool := !left.looser op.rank

/-- An operation on the right binds tighter than the operator it stands after. -/
def rightHolds (op : TokenKind) (_left right : Node) : Bool := !right.looser (op.rank + 1)

def isNegation : Node → Bool
  | .notOp _ => true
  | _ => false

@[simp] theorem looser_binaryOp (q : Nat) (op : Token) (left right : Node) :
    (binaryOp op left right).looser q = decide (op.kind.rank < q) := rfl

theorem looser_mono {p q : Nat} {e : Node} (le : p ≤ q) (h : e.looser q = false) :
    e.looser p = false := by
  cases e with
  | binaryOp op left right =>
    simp only [looser_binaryOp, decide_eq_false_iff_not] at h ⊢
    omega
  | _ => rfl

theorem leftNeedsParens_eq (op : TokenKind) (e : Node) :
    e.leftNeedsParens op = (e.isNegation || e.looser op.rank) := by
  cases e <;> simp [leftNeedsParens, isNegation, looser, operator?]

theorem rightNeedsParens_eq (op : TokenKind) (e : Node) :
    e.rightNeedsParens op = e.looser (op.rank + 1) := by
  cases e with
  | binaryOp inner left right =>
    rw [looser_binaryOp, rightNeedsParens, decide_eq_decide]
    omega
  | _ => rfl

theorem notNeedsParens_eq (e : Node) : e.notNeedsParens = e.looser (TokenKind.bang.rank + 1) := by
  cases e with
  | binaryOp op left right =>
    have small : op.kind.rank < TokenKind.bang.rank + 1 := by
      cases op.kind <;> decide
    rw [looser_binaryOp, decide_eq_true small, notNeedsParens]
  | _ => rfl

end Node
end ShiFormat
