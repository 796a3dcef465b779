import ShiFormat.Proofs.Parsing.Acceptance
import ShiFormat.Proofs.Precedence.Survey

/-!
Operations of an accepted text without grouping parentheses. An operation on the right of an
operator always binds tighter than it. One on the left binds no looser, unless an operator
overtakes it after a negated operand.
-/
namespace ShiFormat
open Grammar

/-- In a text without grouping parentheses each operation on the right of an operator binds tighter
than it, and each one on the left no looser, the latter exactly if no operator overtakes. -/
theorem operations_ordered_iff (path : Path) (text : String) (tree : Node)
    (accepted : parse path text = .ok tree) (bare : Ungrouped (keptTokens path text)) :
    tree.everyOperation Node.rightHolds = true ∧
      (tree.everyOperation Node.leftHolds = true ↔
        overtakes none [] (keptTokens path text) = false) := by
  obtain ⟨d, _, body, derived, rfl⟩ := derived_of_parse accepted
  have ordered := derived.overtakes_eq.2 bare
  refine ⟨ordered.rights, ?_⟩
  have lefts : (Node.statementList body).everyOperation Node.leftHolds =
      !overtakes none [] (keptTokens path text) := ordered.lefts
  rw [lefts, Bool.not_eq_true']

/-- `f(a) + b == !c` and `d && !e[1] || g` -/
theorem operations_ordered_with_negation :
    let path : Path := ⟨"BUILD.shi"⟩
    let text := "if (f(a) + b == !c) \x7b x = d && !e[1] || g \x7d"
    Ungrouped (keptTokens path text) ∧ ∃ tree, parse path text = .ok tree ∧
      tree.everyOperation Node.rightHolds = true ∧ tree.everyOperation Node.leftHolds = true := by
  intro path text
  have bare : Ungrouped (keptTokens path text) := by decide +kernel
  have still : overtakes none [] (keptTokens path text) = false := by decide +kernel
  obtain ⟨tree, accepted, _⟩ := accepted_of_check path text (fun _ => true) (by decide +kernel)
  have ordered := operations_ordered_iff path text tree accepted bare
  exact ⟨bare, tree, accepted, ordered.1, ordered.2.mpr still⟩

/-- `a = b == !c + d` is accepted, and its addition takes the comparison as its left operand. -/
theorem addition_overtakes_comparison :
    let path : Path := ⟨"BUILD.shi"⟩
    let text := "a = b == !c + d"
    Ungrouped (keptTokens path text) ∧ ∃ tree, parse path text = .ok tree ∧
      tree.everyOperation Node.leftHolds = false := by
  intro path text
  have bare : Ungrouped (keptTokens path text) := by decide +kernel
  obtain ⟨tree, accepted, looser⟩ := accepted_of_check path text
    (fun tree => !tree.everyOperation Node.leftHolds) (by decide +kernel)
  exact ⟨bare, tree, accepted, by simpa using looser⟩

end ShiFormat
