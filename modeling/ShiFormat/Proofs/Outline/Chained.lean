import ShiFormat.Comparison
import ShiFormat.Proofs.Outline.Branches

/-!
Trees with every else that holds nothing but a condition read as an else-if. This is the one thing
that an outline does not tell.
-/
namespace ShiFormat

/-- An else with these statements, which is an else-if if they are a condition alone. -/
def Alternative.ofElse : List Node → Alternative
  | [.condition test body alternative] => .elseIf test body alternative
  | body => .elseBlock body

mutual

/-- The tree with each else block that is a condition alone replaced by an else-if, the inner ones
first. -/
def Node.chained : Node → Node
  | .arrayAccess id index => .arrayAccess id index.chained
  | .assignment op target value => .assignment op target.chained value.chained
  | .binaryOp op left right => .binaryOp op left.chained right.chained
  | .call id arguments none => .call id (chainedOfAll arguments) none
  | .call id arguments (some body) => .call id (chainedOfAll arguments) (some (chainedOfAll body))
  | .condition test body alternative =>
    .condition test.chained (chainedOfAll body) alternative.chained
  | .expressionList items => .expressionList (chainedOfAll items)
  | .identifier id => .identifier id
  | .literal value => .literal value
  | .notOp operand => .notOp operand.chained
  | .scopeAccess id inner => .scopeAccess id inner
  | .statementList items => .statementList (chainedOfAll items)

def Alternative.chained : Alternative → Alternative
  | .absent => .absent
  | .elseIf test body alternative => .elseIf test.chained (chainedOfAll body) alternative.chained
  | .elseBlock body => .ofElse (chainedOfAll body)

def chainedOfAll : List Node → List Node
  | [] => []
  | node :: more => node.chained :: chainedOfAll more

end

/-- The statements are a condition and nothing else. -/
def isLoneCondition : List Node → Bool
  | [.condition ..] => true
  | _ => false

mutual

/-- No else block is a condition alone. -/
def Node.isChained : Node → Bool
  | .arrayAccess _ index => index.isChained
  | .assignment _ target value => target.isChained && value.isChained
  | .binaryOp _ left right => left.isChained && right.isChained
  | .call _ arguments none => allChained arguments
  | .call _ arguments (some body) => allChained arguments && allChained body
  | .condition test body alternative =>
    test.isChained && allChained body && alternative.isChained
  | .expressionList items | .statementList items => allChained items
  | .notOp operand => operand.isChained
  | .identifier _ | .literal _ | .scopeAccess .. => true

def Alternative.isChained : Alternative → Bool
  | .absent => true
  | .elseIf test body alternative => test.isChained && allChained body && alternative.isChained
  | .elseBlock body => !isLoneCondition body && allChained body

def allChained : List Node → Bool
  | [] => true
  | node :: more => node.isChained && allChained more

end

namespace Alternative

theorem isChained_ofElse {body : List Node} (chained : allChained body) :
    (ofElse body).isChained := by
  unfold ofElse
  split
  · simpa [allChained, Node.isChained, isChained] using chained
  · next other =>
    have several : isLoneCondition body = false := by
      unfold isLoneCondition
      split
      · exact absurd rfl (other _ _ _)
      · rfl
    simp [isChained, several, chained]

theorem branches_ofElse (body : List Node) :
    (ofElse body).branches = [.mk "Else:" (branchesOfAll body)] := by
  unfold ofElse
  split <;> rfl

theorem mapTokens_ofElse (f : Token → Token) (body : List Node) :
    (ofElse body).mapTokens f = ofElse (mapTokensOfAll f body) := by
  match body with
  | [] => rfl
  | [n] =>
    cases n with
    | call id arguments block => cases block <;> rfl
    | _ => rfl
  | _ :: _ :: _ => simp [ofElse, mapTokensOfAll, mapTokens]

end Alternative

mutual

theorem Node.isChained_chained : (n : Node) → n.chained.isChained
  | .arrayAccess id index => by simp [Node.chained, Node.isChained, index.isChained_chained]
  | .assignment op target value => by
    simp [Node.chained, Node.isChained, target.isChained_chained, value.isChained_chained]
  | .binaryOp op left right => by
    simp [Node.chained, Node.isChained, left.isChained_chained, right.isChained_chained]
  | .call id arguments none => by
    simp [Node.chained, Node.isChained, allChained_chained arguments]
  | .call id arguments (some body) => by
    simp [Node.chained, Node.isChained, allChained_chained arguments, allChained_chained body]
  | .condition test body alternative => by
    simp [Node.chained, Node.isChained, test.isChained_chained, allChained_chained body,
      alternative.isChained_chained]
  | .expressionList items | .statementList items => by
    simp [Node.chained, Node.isChained, allChained_chained items]
  | .notOp operand => by simp [Node.chained, Node.isChained, operand.isChained_chained]
  | .identifier _ | .literal _ | .scopeAccess .. => rfl

theorem Alternative.isChained_chained : (alternative : Alternative) →
    alternative.chained.isChained
  | .absent => rfl
  | .elseIf test body alternative => by
    simp [Alternative.chained, Alternative.isChained, test.isChained_chained,
      allChained_chained body, alternative.isChained_chained]
  | .elseBlock body => Alternative.isChained_ofElse (allChained_chained body)

theorem allChained_chained : (nodes : List Node) → allChained (chainedOfAll nodes)
  | [] => rfl
  | node :: more => by
    simp [chainedOfAll, allChained, node.isChained_chained, allChained_chained more]

end

mutual

theorem Node.branch_chained : (n : Node) → n.chained.branch = n.branch
  | .arrayAccess id index => by
    simp only [Node.chained, Node.branch, Node.heading, index.branch_chained]
  | .assignment op target value => by
    simp only [Node.chained, Node.branch, Node.heading, target.branch_chained,
      value.branch_chained]
  | .binaryOp op left right => by
    simp only [Node.chained, Node.branch, Node.heading, left.branch_chained, right.branch_chained]
  | .call id arguments none => by
    simp only [Node.chained, Node.branch, Node.heading, branchesOfAll_chained arguments]
  | .call id arguments (some body) => by
    simp only [Node.chained, Node.branch, Node.heading, branchesOfAll_chained arguments,
      branchesOfAll_chained body]
  | .condition test body alternative => by
    simp only [Node.chained, Node.branch, Node.heading, test.branch_chained,
      branchesOfAll_chained body, alternative.branches_chained]
  | .expressionList items | .statementList items => by
    simp only [Node.chained, Node.branch, Node.heading, branchesOfAll_chained items]
  | .notOp operand => by
    simp only [Node.chained, Node.branch, Node.heading, operand.branch_chained]
  | .identifier _ | .literal _ | .scopeAccess .. => rfl

theorem Alternative.branches_chained : (alternative : Alternative) →
    alternative.chained.branches = alternative.branches
  | .absent => rfl
  | .elseIf test body alternative => by
    simp only [Alternative.chained, Alternative.branches, test.branch_chained,
      branchesOfAll_chained body, alternative.branches_chained]
  | .elseBlock body => by
    rw [Alternative.chained, Alternative.branches_ofElse, branchesOfAll_chained body,
      Alternative.branches]

theorem branchesOfAll_chained : (nodes : List Node) →
    branchesOfAll (chainedOfAll nodes) = branchesOfAll nodes
  | [] => rfl
  | node :: more => by
    rw [chainedOfAll, branchesOfAll, branchesOfAll, node.branch_chained, branchesOfAll_chained more]

end

/-- An outline does not tell a lone condition in an else from an else-if. -/
theorem Node.outline_chained (indent : Nat) (n : Node) :
    n.chained.outline indent = n.outline indent := by
  rw [outline_eq, branch_chained, ← outline_eq]

end ShiFormat
