import ShiFormat.Comparison
import ShiFormat.Proofs.Parsing.Acceptance

/-!
How high the tree of an accepted text is. Brackets, negations and blocks open a nesting level each
and are limited. The operators of one expression and the conditions of one `else if` chain open
none, though each of them makes the tree higher by one.
-/
namespace ShiFormat

mutual

/-- The most nodes, blocks and further conditions on a way down from the root. -/
def Node.height : Node → Nat
  | .arrayAccess _ index => index.height + 1
  | .assignment _ target value => max target.height value.height + 1
  | .binaryOp _ left right => max left.height right.height + 1
  | .call _ arguments none => heightOfAll arguments + 1
  | .call _ arguments (some block) => max (heightOfAll arguments) (heightOfAll block + 1) + 1
  | .condition test body alternative =>
    max test.height (max (heightOfAll body + 1) alternative.height) + 1
  | .expressionList items => heightOfAll items + 1
  | .identifier _ => 1
  | .literal _ => 1
  | .notOp operand => operand.height + 1
  | .scopeAccess .. => 1
  | .statementList items => heightOfAll items + 1

def Alternative.height : Alternative → Nat
  | .absent => 0
  | .elseIf test body alternative =>
    max test.height (max (heightOfAll body + 1) alternative.height) + 1
  | .elseBlock body => heightOfAll body + 1

def heightOfAll : List Node → Nat
  | [] => 0
  | node :: more => max node.height (heightOfAll more)

end

/-- The operators on the way down by left operands. -/
def Node.operations : Node → Nat
  | .binaryOp _ left _ => left.operations + 1
  | _ => 0

/-- The conditions that follow one another. -/
def Alternative.conditions : Alternative → Nat
  | .elseIf _ _ alternative => alternative.conditions + 1
  | _ => 0

mutual

/-- The most operators folded to the left in one another, or conditions in one chain. -/
def Node.longestRun : Node → Nat
  | .arrayAccess _ index => index.longestRun
  | .assignment _ target value => max target.longestRun value.longestRun
  | .binaryOp _ left right => max (left.operations + 1) (max left.longestRun right.longestRun)
  | .call _ arguments none => longestRunOfAll arguments
  | .call _ arguments (some block) => max (longestRunOfAll arguments) (longestRunOfAll block)
  | .condition test body alternative =>
    max test.longestRun
      (max (longestRunOfAll body) (max alternative.conditions alternative.longestRun))
  | .expressionList items => longestRunOfAll items
  | .identifier _ => 0
  | .literal _ => 0
  | .notOp operand => operand.longestRun
  | .scopeAccess .. => 0
  | .statementList items => longestRunOfAll items

def Alternative.longestRun : Alternative → Nat
  | .absent => 0
  | .elseIf test body alternative =>
    max test.longestRun (max (longestRunOfAll body) alternative.longestRun)
  | .elseBlock body => longestRunOfAll body

def longestRunOfAll : List Node → Nat
  | [] => 0
  | node :: more => max node.longestRun (longestRunOfAll more)

end

section
variable (f : Token → Token)

mutual

theorem Node.height_mapTokens : (e : Node) → (e.mapTokens f).height = e.height
  | .arrayAccess _ index => by
    simp only [Node.mapTokens, Node.height, Node.height_mapTokens index]
  | .assignment _ target value => by
    simp only [Node.mapTokens, Node.height, Node.height_mapTokens target,
      Node.height_mapTokens value]
  | .binaryOp _ left right => by
    simp only [Node.mapTokens, Node.height, Node.height_mapTokens left,
      Node.height_mapTokens right]
  | .call _ arguments none => by
    simp only [Node.mapTokens, Node.height, heightOfAll_mapTokens arguments]
  | .call _ arguments (some block) => by
    simp only [Node.mapTokens, Node.height, heightOfAll_mapTokens arguments,
      heightOfAll_mapTokens block]
  | .condition test body alternative => by
    simp only [Node.mapTokens, Node.height, Node.height_mapTokens test,
      heightOfAll_mapTokens body, Alternative.height_mapTokens alternative]
  | .expressionList items => by
    simp only [Node.mapTokens, Node.height, heightOfAll_mapTokens items]
  | .notOp operand => by simp only [Node.mapTokens, Node.height, Node.height_mapTokens operand]
  | .identifier _ | .literal _ | .scopeAccess .. => rfl
  | .statementList items => by
    simp only [Node.mapTokens, Node.height, heightOfAll_mapTokens items]

theorem Alternative.height_mapTokens : (alternative : Alternative) →
    (alternative.mapTokens f).height = alternative.height
  | .absent => rfl
  | .elseIf test body alternative => by
    simp only [Alternative.mapTokens, Alternative.height, Node.height_mapTokens test,
      heightOfAll_mapTokens body, Alternative.height_mapTokens alternative]
  | .elseBlock body => by
    simp only [Alternative.mapTokens, Alternative.height, heightOfAll_mapTokens body]

theorem heightOfAll_mapTokens : (items : List Node) →
    heightOfAll (mapTokensOfAll f items) = heightOfAll items
  | [] => rfl
  | item :: more => by
    simp only [mapTokensOfAll, heightOfAll, Node.height_mapTokens item,
      heightOfAll_mapTokens more]

end
end

theorem Node.operations_le_longestRun (e : Node) : e.operations ≤ e.longestRun := by
  cases e with
  | binaryOp op left right => exact Nat.le_max_left _ _
  | _ => exact Nat.zero_le _

theorem Node.operations_lt_height : (e : Node) → e.operations < e.height
  | .binaryOp op left right => by
    have lower := left.operations_lt_height
    simp only [operations, height]
    omega
  | .call _ _ none | .call _ _ (some _) => by simp [operations, height]
  | .arrayAccess .. | .assignment .. | .condition .. | .expressionList _ | .identifier _
  | .literal _ | .notOp _ | .scopeAccess .. | .statementList _ => by simp [operations, height]

theorem Alternative.conditions_le_height (alternative : Alternative) :
    alternative.conditions ≤ alternative.height := by
  cases alternative with
  | absent => exact Nat.le_refl 0
  | elseIf test body alternative =>
    have lower := alternative.conditions_le_height
    simp only [conditions, height]
    omega
  | elseBlock body => exact Nat.zero_le _

mutual

/-- A run makes the tree at least as high. -/
theorem Node.longestRun_lt_height : (e : Node) → e.longestRun < e.height
  | .arrayAccess _ index => by
    have inside := index.longestRun_lt_height
    simp only [Node.longestRun, Node.height]
    omega
  | .assignment _ target value => by
    have left := target.longestRun_lt_height
    have right := value.longestRun_lt_height
    simp only [Node.longestRun, Node.height]
    omega
  | .binaryOp _ left right => by
    have spine := left.operations_lt_height
    have first := left.longestRun_lt_height
    have second := right.longestRun_lt_height
    simp only [Node.longestRun, Node.height]
    omega
  | .call _ arguments none => by
    have inside := longestRun_le_heightOfAll arguments
    simp only [Node.longestRun, Node.height]
    omega
  | .call _ arguments (some block) => by
    have inside := longestRun_le_heightOfAll arguments
    have below := longestRun_le_heightOfAll block
    simp only [Node.longestRun, Node.height]
    omega
  | .condition test body alternative => by
    have tested := test.longestRun_lt_height
    have below := longestRun_le_heightOfAll body
    have chain := alternative.conditions_le_height
    have otherwise := alternative.longestRun_le_height
    simp only [Node.longestRun, Node.height]
    omega
  | .expressionList items => by
    have inside := longestRun_le_heightOfAll items
    simp only [Node.longestRun, Node.height]
    omega
  | .notOp operand => by
    have inside := operand.longestRun_lt_height
    simp only [Node.longestRun, Node.height]
    omega
  | .identifier _ | .literal _ | .scopeAccess .. => Nat.one_pos
  | .statementList items => by
    have inside := longestRun_le_heightOfAll items
    simp only [Node.longestRun, Node.height]
    omega

theorem Alternative.longestRun_le_height : (alternative : Alternative) →
    alternative.longestRun ≤ alternative.height
  | .absent => Nat.le_refl 0
  | .elseIf test body alternative => by
    have tested := test.longestRun_lt_height
    have below := longestRun_le_heightOfAll body
    have otherwise := alternative.longestRun_le_height
    simp only [Alternative.longestRun, Alternative.height]
    omega
  | .elseBlock body => by
    have below := longestRun_le_heightOfAll body
    simp only [Alternative.longestRun, Alternative.height]
    omega

theorem longestRun_le_heightOfAll : (items : List Node) →
    longestRunOfAll items ≤ heightOfAll items
  | [] => Nat.le_refl 0
  | item :: more => by
    have first := item.longestRun_lt_height
    have others := longestRun_le_heightOfAll more
    simp only [longestRunOfAll, heightOfAll]
    omega

end

namespace Grammar

section
variable {k : Nat}

mutual

/-- Each level of an expression adds at most one run and what opens the level. -/
theorem Primary.height_le {d : Nat} {ts : List Token} {node : Node} :
    Primary d ts node → node.longestRun ≤ k → node.height ≤ (k + 1) * d + 1
  | .literal _, _ | .identifier _, _ | .scopeAccess .., _ => by simp only [Node.height]; omega
  | .arrayAccess _ _ inside _, short => Nat.succ_le_succ (inside.height_le short)
  | .call head, short => Nat.succ_le_succ (head.height_le short)
  | .parenthesized _ inside _, short => Nat.le_succ_of_le (inside.height_le short)
  | .bracketed _ inside _, short => Nat.succ_le_succ (inside.height_le short)

theorem CallHead.height_le {d : Nat} {ts : List Token} {id : Token} {arguments : List Node} :
    CallHead d ts id arguments → longestRunOfAll arguments ≤ k →
      heightOfAll arguments ≤ (k + 1) * d
  | .applied _ _ inside _, short => inside.height_le short

theorem Items.height_le {d : Nat} {ts : List Token} {items : List Node} :
    Items d ts items → longestRunOfAll items ≤ k → heightOfAll items ≤ (k + 1) * d
  | .nil, _ => Nat.zero_le _
  | .last first, short => by
    simp only [longestRunOfAll, heightOfAll, Nat.max_zero] at short ⊢
    exact first.height_le short
  | .cons first _ others, short => by
    simp only [longestRunOfAll, Nat.max_le] at short
    have item := first.height_le short.1
    have more := others.height_le short.2
    simp only [heightOfAll, ← Nat.mul_max_mul_left]
    omega

theorem Chain.height_le {m d : Nat} {ceiling : Option Nat} {ts : List Token} {node : Node} :
    Chain m ceiling d ts node → node.longestRun ≤ k →
      node.height ≤ (k + 1) * d + 1 + node.operations
  | .primary operand, short => Nat.le_add_right_of_le (operand.height_le short)
  | .operator before _ _ _ operand, short => by
    -- The operators before it are part of the run, so they are counted and not bounded here.
    simp only [Node.longestRun, Nat.max_le] at short
    have left := before.height_le short.2.1
    have right := operand.height_le short.2.2
    simp only [Node.height, Node.operations, ← Nat.mul_max_mul_left]
    omega

theorem Expression.height_le {m d : Nat} {ts : List Token} {node : Node} :
    Expression m d ts node → node.longestRun ≤ k → node.height ≤ (k + 1) * d
  | .negation _ inside, short => by
    have operand := inside.height_le short
    simp only [Node.height, Nat.mul_succ]
    omega
  | .chain operands, short => by
    have height := operands.height_le short
    have run := node.operations_le_longestRun
    rw [Nat.mul_succ]
    omega

end

theorem Expression.height_le_wide {m d : Nat} {ts : List Token} {node : Node}
    (h : Expression m d ts node) (short : node.longestRun ≤ k) : node.height ≤ (k + 2) * d :=
  Nat.le_trans (h.height_le short) (Nat.mul_le_mul_right d (Nat.le_succ _))

theorem CallHead.height_le_wide {d : Nat} {ts : List Token} {id : Token} {arguments : List Node}
    (h : CallHead d ts id arguments) (short : longestRunOfAll arguments ≤ k) :
    heightOfAll arguments ≤ (k + 2) * d :=
  Nat.le_trans (h.height_le short) (Nat.mul_le_mul_right d (Nat.le_succ _))

mutual

/-- Each level of a block adds the block itself, a statement and at most one run. -/
theorem Block.height_le {d : Nat} {ts : List Token} {body : List Node} : Block d ts body →
    longestRunOfAll body ≤ k → heightOfAll body + 1 ≤ (k + 2) * d
  | .braced _ inside _, short => by
    have statements := inside.height_le short
    rw [Nat.mul_succ]
    omega

theorem Statements.height_le {d : Nat} {ts : List Token} {body : List Node} :
    Statements d ts body → longestRunOfAll body ≤ k → heightOfAll body ≤ (k + 2) * d + (k + 1)
  | .nil, _ => Nat.zero_le _
  | .cons first others, short => by
    simp only [longestRunOfAll, Nat.max_le] at short
    have statement := first.height_le short.1
    have more := others.height_le short.2
    simp only [heightOfAll, ← Nat.mul_max_mul_left]
    omega

theorem Statement.height_le {d : Nat} {ts : List Token} {statement : Node} :
    Statement d ts statement → statement.longestRun ≤ k →
      statement.height ≤ (k + 2) * d + (k + 1)
  | .assignment _ _ right, short => by
    simp only [Node.longestRun, Nat.max_le] at short
    have value := right.height_le_wide short.2
    -- An expression has opened a level, and that leaves room for the target.
    have opened := Nat.le_mul_of_pos_right (k + 2) right.depth_pos
    simp only [Node.height]
    omega
  | .call head, short => by
    have arguments := head.height_le_wide short
    simp only [Node.height]
    omega
  | .callBlock head block, short => by
    simp only [Node.longestRun, Nat.max_le] at short
    have arguments := head.height_le_wide short.1
    have body := block.height_le short.2
    simp only [Node.height, ← Nat.mul_max_mul_left]
    omega
  | .condition guarded otherwise, short => by
    simp only [Node.longestRun, Nat.max_le] at short
    obtain ⟨test, body⟩ := guarded.height_le short.1 short.2.1
    have alternative := otherwise.height_le short.2.2.2
    have chain := short.2.2.1
    simp only [Node.height, ← Nat.mul_max_mul_left]
    omega

theorem Guarded.height_le {d : Nat} {ts : List Token} {test : Node} {body : List Node} :
    Guarded d ts test body → test.longestRun ≤ k → longestRunOfAll body ≤ k →
      test.height ≤ (k + 2) * d ∧ heightOfAll body + 1 ≤ (k + 2) * d
  | .guarded _ _ inside _ block, tested, short => by
    have test := inside.height_le_wide tested
    have body := block.height_le short
    simp only [← Nat.mul_max_mul_left]
    omega

theorem Otherwise.height_le {d : Nat} {ts : List Token} {alternative : Alternative} :
    Otherwise d ts alternative → alternative.longestRun ≤ k →
      alternative.height ≤ (k + 2) * d + alternative.conditions
  | .absent, _ => Nat.zero_le _
  | .elseIf _ guarded otherwise, short => by
    simp only [Alternative.longestRun, Nat.max_le] at short
    obtain ⟨test, body⟩ := guarded.height_le short.1 short.2.1
    have alternative := otherwise.height_le short.2.2
    simp only [Alternative.height, Alternative.conditions, ← Nat.mul_max_mul_left]
    omega
  | .elseBlock _ block, short => block.height_le short

end

end
end Grammar

/-- The tree of an accepted text is higher than its longest run, and no higher than the nesting
limit allows with runs of that length. -/
theorem height_within_runs (path : Path) (text : String) (tree : Node)
    (accepted : parse path text = .ok tree) :
    tree.longestRun < tree.height ∧
      tree.height ≤ (tree.longestRun + 2) * (nestingLimit + 1) := by
  obtain ⟨d, within, body, derived, rfl⟩ := derived_of_parse accepted
  refine ⟨Node.longestRun_lt_height _, ?_⟩
  have height := derived.height_le (Nat.le_refl (longestRunOfAll body))
  have levels := Nat.mul_le_mul_left (longestRunOfAll body + 2) within
  simp only [Node.height, Node.longestRun, Nat.mul_succ]
  omega

/-- A chain of three conditions, and four operators in a row. -/
theorem height_within_runs_condition :
    let path : Path := ⟨"BUILD.shi"⟩
    let text := "if (a + b - c + d > e) \x7b\x7d else if (f) \x7b\x7d else if (g) \x7bx = [!y]\x7d"
    ∃ tree, parse path text = .ok tree ∧ tree.longestRun = 4 ∧
      4 < tree.height ∧ tree.height ≤ (4 + 2) * (nestingLimit + 1) := by
  intro path text
  obtain ⟨tree, accepted, run⟩ := accepted_of_check path text (fun tree => tree.longestRun == 4)
    (by decide +kernel)
  have height := height_within_runs path text tree accepted
  rw [beq_iff_eq.mp run] at height
  exact ⟨tree, accepted, beq_iff_eq.mp run, height⟩

end ShiFormat
