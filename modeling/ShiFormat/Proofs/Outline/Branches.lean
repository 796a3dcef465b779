import ShiFormat.Outline

/-!
An outline as a tree of its lines. How deep the lines are indented says which of them are below
which, so the lines determine this tree.
-/
namespace ShiFormat

/-- A line with what stands below it. -/
inductive Branch where
  | mk (line : String) (below : List Branch)

mutual

/-- The lines of a branch, of which the first is indented by `indent`. -/
def Branch.lines (indent : Nat) : Branch → List OutlineLine
  | .mk line below => ⟨indent, line⟩ :: linesOfAll (indent + 2) below

def linesOfAll (indent : Nat) : List Branch → List OutlineLine
  | [] => []
  | branch :: more => branch.lines indent ++ linesOfAll indent more

end

/-- A line of another tree comes next, or one that is less deep. -/
def Outdented (indent : Nat) (rest : List OutlineLine) : Prop := ∀ l ∈ rest.head?, l.indent < indent

theorem Outdented.below {indent : Nat} {rest : List OutlineLine} (out : Outdented indent rest)
    (branches : List Branch) : Outdented (indent + 2) (linesOfAll indent branches ++ rest) := by
  intro l first
  cases branches with
  | nil =>
    have shallow := out l first
    omega
  | cons branch more =>
    obtain ⟨line, below⟩ := branch
    have head : l = ⟨indent, line⟩ := (Option.some.inj first).symm
    subst head
    exact Nat.lt_add_of_pos_right (by decide)

/-- Lines determine the branches they come from, and where these end. -/
theorem branches_of_lines {indent : Nat} {rest rest' : List OutlineLine}
    (out : Outdented indent rest) (out' : Outdented indent rest') :
    (branches branches' : List Branch) →
    linesOfAll indent branches ++ rest = linesOfAll indent branches' ++ rest' →
    branches = branches' ∧ rest = rest'
  | [], [], same => ⟨rfl, same⟩
  | [], .mk line _ :: _, same => by
    subst same
    exact absurd (out ⟨indent, line⟩ rfl) (Nat.lt_irrefl _)
  | .mk line _ :: _, [], same => by
    subst same
    exact absurd (out' ⟨indent, line⟩ rfl) (Nat.lt_irrefl _)
  | .mk line below :: more, .mk line' below' :: more', same => by
    simp only [linesOfAll, Branch.lines, List.cons_append, List.append_assoc, List.cons.injEq,
      OutlineLine.mk.injEq, true_and] at same
    obtain ⟨rfl, inside⟩ := same
    obtain ⟨rfl, after⟩ := branches_of_lines (out.below more) (out'.below more') below below' inside
    obtain ⟨rfl, finish⟩ := branches_of_lines out out' more more' after
    exact ⟨rfl, finish⟩

/-- The line, indented by `n` more. -/
def OutlineLine.deeper (n : Nat) (l : OutlineLine) : OutlineLine :=
  { l with indent := n + l.indent }

mutual

theorem Branch.lines_deeper (n indent : Nat) : (branch : Branch) →
    branch.lines (n + indent) = (branch.lines indent).map (OutlineLine.deeper n)
  | .mk line below => by
    rw [Branch.lines, Branch.lines, List.map_cons, Nat.add_assoc, linesOfAll_deeper n _ below]
    rfl

theorem linesOfAll_deeper (n indent : Nat) : (branches : List Branch) →
    linesOfAll (n + indent) branches = (linesOfAll indent branches).map (OutlineLine.deeper n)
  | [] => rfl
  | branch :: more => by
    rw [linesOfAll, linesOfAll, List.map_append, branch.lines_deeper, linesOfAll_deeper n _ more]

end

namespace Node

/-- The first line of a node. -/
def heading : Node → String
  | .arrayAccess id _ => s!"ArrayAccess {id.value}"
  | .assignment op _ _ => s!"Assignment {op.value}"
  | .binaryOp op _ _ => s!"BinaryOp {op.value}"
  | .call id _ _ => s!"Call {id.value}"
  | .condition .. => "Condition"
  | .expressionList _ => "ExpressionList"
  | .identifier id => s!"Identifier {id.value}"
  | .literal value => s!"Literal {value.value} ({value.kind})"
  | .notOp _ => "Not"
  | .scopeAccess id inner => s!"ScopeAccess {id.value}.{inner.value}"
  | .statementList _ => "StatementList"

/-- What the first line of a node tells behind its name. -/
def detail : Node → List Char
  | .arrayAccess id _ | .call id _ _ | .identifier id => ' ' :: id.value.toList
  | .assignment op _ _ | .binaryOp op _ _ => ' ' :: op.value.toList
  | .literal value =>
    ' ' :: value.value.toList ++ ' ' :: '(' :: value.kind.describe.toList ++ [')']
  | .scopeAccess id inner => ' ' :: id.value.toList ++ '.' :: inner.value.toList
  | .condition .. | .expressionList _ | .notOp _ | .statementList _ => []

theorem toList_heading (n : Node) : n.heading.toList = n.name.toList ++ n.detail := by
  cases n <;> simp [heading, name, detail, toString]

end Node

mutual

/-- A node with its heading and what stands below it. -/
def Node.branch : Node → Branch
  | n@(.arrayAccess _ index) => .mk n.heading [.mk "Index:" [index.branch]]
  | n@(.assignment _ target value) =>
    .mk n.heading [.mk "Left value:" [target.branch], .mk "Right value:" [value.branch]]
  | n@(.binaryOp _ left right) => .mk n.heading [left.branch, right.branch]
  | n@(.call _ arguments none) => .mk n.heading [.mk "Arguments:" (branchesOfAll arguments)]
  | n@(.call _ arguments (some body)) =>
    .mk n.heading
      [.mk "Arguments:" (branchesOfAll arguments), .mk "Block:" (branchesOfAll body)]
  | n@(.condition test body alternative) =>
    .mk n.heading
      (.mk "If:" [test.branch] :: .mk "Then:" (branchesOfAll body) :: alternative.branches)
  | n@(.expressionList items) | n@(.statementList items) => .mk n.heading (branchesOfAll items)
  | n@(.notOp operand) => .mk n.heading [operand.branch]
  | n@(.identifier _) | n@(.literal _) | n@(.scopeAccess ..) => .mk n.heading []

def Alternative.branches : Alternative → List Branch
  | .absent => []
  | .elseIf test body alternative =>
    [.mk "Else:" [.mk "Condition"
      (.mk "If:" [test.branch] :: .mk "Then:" (branchesOfAll body) :: alternative.branches)]]
  | .elseBlock body => [.mk "Else:" (branchesOfAll body)]

def branchesOfAll : List Node → List Branch
  | [] => []
  | node :: more => node.branch :: branchesOfAll more

end

mutual

theorem Node.outline_eq (indent : Nat) : (n : Node) → n.outline indent = n.branch.lines indent
  | .arrayAccess id index => by
    simp [Node.outline, Node.branch, Branch.lines, linesOfAll, index.outline_eq, Node.heading]
  | .assignment op target value => by
    simp [Node.outline, Node.branch, Branch.lines, linesOfAll, target.outline_eq, value.outline_eq,
      Node.heading]
  | .binaryOp op left right => by
    simp [Node.outline, Node.branch, Branch.lines, linesOfAll, left.outline_eq, right.outline_eq,
      Node.heading]
  | .call id arguments none => by
    simp [Node.outline, Node.branch, Branch.lines, linesOfAll, outlineOfAll_eq _ arguments,
      Node.heading]
  | .call id arguments (some body) => by
    simp [Node.outline, Node.branch, Branch.lines, linesOfAll, outlineOfAll_eq _ arguments,
      outlineOfAll_eq _ body, Node.heading]
  | .condition test body alternative => by
    simp [Node.outline, Node.branch, Branch.lines, linesOfAll, test.outline_eq,
      outlineOfAll_eq _ body, alternative.outline_eq, Node.heading]
  | .expressionList items | .statementList items => by
    simp [Node.outline, Node.branch, Branch.lines, outlineOfAll_eq _ items, Node.heading]
  | .notOp operand => by
    simp [Node.outline, Node.branch, Branch.lines, linesOfAll, operand.outline_eq, Node.heading]
  | .identifier _ | .literal _ | .scopeAccess .. => rfl

theorem Alternative.outline_eq (indent : Nat) : (alternative : Alternative) →
    alternative.outline indent = linesOfAll indent alternative.branches
  | .absent => rfl
  | .elseIf test body alternative => by
    simp [Alternative.outline, Alternative.branches, Branch.lines, linesOfAll, test.outline_eq,
      outlineOfAll_eq _ body, alternative.outline_eq]
  | .elseBlock body => by
    simp [Alternative.outline, Alternative.branches, Branch.lines, linesOfAll,
      outlineOfAll_eq _ body]

theorem outlineOfAll_eq (indent : Nat) : (nodes : List Node) →
    outlineOfAll indent nodes = linesOfAll indent (branchesOfAll nodes)
  | [] => rfl
  | node :: more => by
    rw [outlineOfAll, branchesOfAll, linesOfAll, node.outline_eq, outlineOfAll_eq indent more]

end

end ShiFormat
