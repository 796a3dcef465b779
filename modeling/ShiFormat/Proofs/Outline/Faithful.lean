import ShiFormat.Proofs.Canonical.Parsed
import ShiFormat.Proofs.Canonical.Unplaced
import ShiFormat.Proofs.Outline.Chained
import ShiFormat.Proofs.Outline.Headings
import ShiFormat.Proofs.Outline.Text

/-!
The outlines of two accepted texts are the same exactly if their trees are equivalent once each else
that is a condition alone is read as an else-if.
-/
namespace ShiFormat
open Node

mutual

theorem expression_of_branch : (a b : Node) → a.formsExpression → b.formsExpression →
    a.branch = b.branch → a.mapTokens Token.unplaced = b.mapTokens Token.unplaced
  | .arrayAccess id index, b, formed, formed', same => by
    have ⟨named, told⟩ := alike_of_branch same
    cases b with
    | arrayAccess id' index' =>
      simp only [formsExpression, Bool.and_eq_true] at formed formed'
      simp only [branch, Branch.mk.injEq, List.cons.injEq, true_and, and_true] at same
      have token := unplaced_of_detail (Token.spells.legible formed.1)
        (Token.spells.legible formed'.1) told
      rw [mapTokens, mapTokens, token, expression_of_branch index index' formed.2 formed'.2 same.2]
    | _ => simp [name] at named
  | .binaryOp op left right, b, formed, formed', same => by
    have ⟨named, told⟩ := alike_of_branch same
    cases b with
    | binaryOp op' left' right' =>
      simp only [formsExpression, Bool.and_eq_true] at formed formed'
      simp only [branch, Branch.mk.injEq, List.cons.injEq, and_true] at same
      have token := unplaced_of_detail (Token.spellsOperator.legible formed.1.1)
        (Token.spellsOperator.legible formed'.1.1) told
      have first := expression_of_branch left left' formed.1.2 formed'.1.2 same.2.1
      have second := expression_of_branch right right' formed.2 formed'.2 same.2.2
      rw [mapTokens, mapTokens, token, first, second]
    | _ => simp [name] at named
  | .call id arguments none, b, formed, formed', same => by
    have ⟨named, told⟩ := alike_of_branch same
    cases b with
    | call id' arguments' block' =>
      cases block' with
      | none =>
        simp only [formsExpression, Bool.and_eq_true] at formed formed'
        simp only [branch, Branch.mk.injEq, List.cons.injEq, true_and, and_true] at same
        have token := unplaced_of_detail (Token.spells.legible formed.1)
          (Token.spells.legible formed'.1) told
        have inside := expressions_of_branches arguments arguments' formed.2 formed'.2 same.2
        rw [mapTokens, mapTokens, token, inside]
      | some body => cases formed'
    | _ => simp [name] at named
  | .expressionList items, b, formed, formed', same => by
    have ⟨named, _⟩ := alike_of_branch same
    cases b with
    | expressionList items' =>
      simp only [branch, Branch.mk.injEq] at same
      rw [mapTokens, mapTokens, expressions_of_branches items items' formed formed' same.2]
    | _ => simp [name] at named
  | .identifier id, b, formed, formed', same => by
    have ⟨named, told⟩ := alike_of_branch same
    cases b with
    | identifier id' =>
      rw [mapTokens, mapTokens,
        unplaced_of_detail (Token.spells.legible formed) (Token.spells.legible formed') told]
    | _ => simp [name] at named
  | .literal value, b, formed, formed', same => by
    have ⟨named, told⟩ := alike_of_branch same
    cases b with
    | literal value' => rw [mapTokens, mapTokens, unplaced_of_literal formed formed' told]
    | _ => simp [name] at named
  | .notOp operand, b, formed, formed', same => by
    have ⟨named, _⟩ := alike_of_branch same
    cases b with
    | notOp operand' =>
      simp only [branch, Branch.mk.injEq, List.cons.injEq, and_true] at same
      rw [mapTokens, mapTokens, expression_of_branch operand operand' formed formed' same.2]
    | _ => simp [name] at named
  | .scopeAccess id inner, b, formed, formed', same => by
    have ⟨named, told⟩ := alike_of_branch same
    cases b with
    | scopeAccess id' inner' =>
      have ⟨first, second⟩ := unplaced_of_scope formed formed' told
      rw [mapTokens, mapTokens, first, second]
    | _ => simp [name] at named
  | .call _ _ (some _), _, formed, _, _ | .assignment .., _, formed, _, _
  | .condition .., _, formed, _, _ | .statementList _, _, formed, _, _ => by
    simp [formsExpression] at formed

theorem expressions_of_branches : (as bs : List Node) → allExpressions as → allExpressions bs →
    branchesOfAll as = branchesOfAll bs →
    mapTokensOfAll Token.unplaced as = mapTokensOfAll Token.unplaced bs
  | [], [], _, _, _ => rfl
  | [], _ :: _, _, _, same | _ :: _, [], _, _, same => by cases same
  | a :: as, b :: bs, formed, formed', same => by
    simp only [allExpressions, Bool.and_eq_true] at formed formed'
    obtain ⟨first, others⟩ := List.cons.inj same
    rw [mapTokensOfAll, mapTokensOfAll, expression_of_branch a b formed.1 formed'.1 first,
      expressions_of_branches as bs formed.2 formed'.2 others]

end

namespace Node

mutual

theorem chained_of_expression : (e : Node) → e.formsExpression → e.chained = e
  | .arrayAccess id index, formed => by
    simp only [formsExpression, Bool.and_eq_true] at formed
    rw [chained, chained_of_expression index formed.2]
  | .binaryOp op left right, formed => by
    simp only [formsExpression, Bool.and_eq_true] at formed
    rw [chained, chained_of_expression left formed.1.2, chained_of_expression right formed.2]
  | .call id arguments none, formed => by
    simp only [formsExpression, Bool.and_eq_true] at formed
    rw [chained, chained_of_expressions arguments formed.2]
  | .expressionList items, formed => by rw [chained, chained_of_expressions items formed]
  | .notOp operand, formed => by rw [chained, chained_of_expression operand formed]
  | .identifier _, _ | .literal _, _ | .scopeAccess .., _ => rfl
  | .call _ _ (some _), formed | .assignment .., formed | .condition .., formed
  | .statementList _, formed => by simp [formsExpression] at formed

theorem chained_of_expressions : (items : List Node) → allExpressions items →
    chainedOfAll items = items
  | [], _ => rfl
  | item :: more, formed => by
    simp only [allExpressions, Bool.and_eq_true] at formed
    rw [chainedOfAll, chained_of_expression item formed.1, chained_of_expressions more formed.2]

end

theorem expression_of_target {target : Node} (formed : target.formsTarget) :
    target.formsExpression := by
  cases target with
  | identifier id => exact formed
  | _ => cases formed

/-- Only a condition has this line. -/
theorem condition_of_branch {n : Node} {below : List Branch}
    (same : n.branch = .mk "Condition" below) :
    ∃ test body alternative, n = condition test body alternative := by
  have heading : n.heading = "Condition" := by rw [← line_branch, same]; rfl
  have named := n.takeWhile_heading
  rw [heading, show "Condition".toList.takeWhile (· != ' ') = "Condition".toList by decide,
    String.toList_inj] at named
  cases n with
  | condition test body alternative => exact ⟨test, body, alternative, rfl⟩
  | _ => simp [name] at named

end Node

theorem lone_of_branches {body : List Node} {below : List Branch}
    (same : branchesOfAll body = [.mk "Condition" below]) :
    ∃ test block alternative, body = [condition test block alternative] := by
  cases body with
  | nil => cases same
  | cons n more =>
    obtain ⟨first, others⟩ := List.cons.inj same
    obtain ⟨test, block, alternative, rfl⟩ := condition_of_branch first
    cases more with
    | nil => exact ⟨test, block, alternative, rfl⟩
    | cons => cases others

/-- An else is told as the block of its statements, an else-if as a condition in it. -/
theorem Alternative.absent_or_else (alternative : Alternative) :
    alternative = absent ∨ ∃ body, alternative.branches = [.mk "Else:" (branchesOfAll body)] ∧
      alternative.chained = ofElse (chainedOfAll body) ∧
      alternative.isFormed = allStatements body := by
  cases alternative with
  | absent => exact .inl rfl
  | elseIf test body alternative =>
    exact .inr ⟨[.condition test body alternative], rfl, rfl, by
      simp [isFormed, allStatements, formsStatement]⟩
  | elseBlock body => exact .inr ⟨body, rfl, rfl, rfl⟩

mutual

theorem statement_of_branch : (a b : Node) → a.formsStatement → b.formsStatement →
    a.branch = b.branch → a.chained.mapTokens Token.unplaced = b.chained.mapTokens Token.unplaced
  | .assignment op target value, b, formed, formed', same => by
    have ⟨named, told⟩ := alike_of_branch same
    cases b with
    | assignment op' target' value' =>
      simp only [formsStatement, Bool.and_eq_true] at formed formed'
      simp only [branch, Branch.mk.injEq, List.cons.injEq, true_and, and_true] at same
      have legible := (Bool.and_eq_true _ _).mp formed.1.2
      have legible' := (Bool.and_eq_true _ _).mp formed'.1.2
      have token := unplaced_of_detail legible.2 legible'.2 told
      have at_target := expression_of_target formed.1.1
      have at_target' := expression_of_target formed'.1.1
      have first := expression_of_branch target target' at_target at_target' same.2.1
      have second := expression_of_branch value value' formed.2 formed'.2 same.2.2
      rw [chained, chained, chained_of_expression _ at_target, chained_of_expression _ at_target',
        chained_of_expression _ formed.2, chained_of_expression _ formed'.2, mapTokens, mapTokens,
        token, first, second]
    | _ => simp [name] at named
  | .call id arguments none, b, formed, formed', same => by
    have ⟨named, _⟩ := alike_of_branch same
    cases b with
    | call id' arguments' block' =>
      cases block' with
      | none =>
        rw [chained_of_expression (.call id arguments none) formed,
          chained_of_expression (.call id' arguments' none) formed']
        exact expression_of_branch _ _ formed formed' same
      | some body => simp [branch] at same
    | _ => simp [name] at named
  | .call id arguments (some body), b, formed, formed', same => by
    have ⟨named, told⟩ := alike_of_branch same
    cases b with
    | call id' arguments' block' =>
      cases block' with
      | none => simp [branch] at same
      | some body' =>
        simp only [formsStatement, Bool.and_eq_true] at formed formed'
        simp only [branch, Branch.mk.injEq, List.cons.injEq, true_and, and_true] at same
        have token := unplaced_of_detail (Token.spells.legible formed.1.1)
          (Token.spells.legible formed'.1.1) told
        have inside := expressions_of_branches arguments arguments' formed.1.2 formed'.1.2 same.2.1
        have block := statements_of_branches body body' formed.2 formed'.2 same.2.2
        rw [chained, chained, chained_of_expressions _ formed.1.2,
          chained_of_expressions _ formed'.1.2, mapTokens, mapTokens, token, inside, block]
    | _ => simp [name] at named
  | .condition test body alternative, b, formed, formed', same => by
    have ⟨named, _⟩ := alike_of_branch same
    cases b with
    | condition test' body' alternative' =>
      simp only [formsStatement, Bool.and_eq_true] at formed formed'
      simp only [branch, Branch.mk.injEq, List.cons.injEq, true_and, and_true] at same
      have first := expression_of_branch test test' formed.1.1 formed'.1.1 same.2.1
      have block := statements_of_branches body body' formed.1.2 formed'.1.2 same.2.2.1
      have others := alternative_of_branches alternative alternative' formed.2 formed'.2 same.2.2.2
      rw [chained, chained, chained_of_expression _ formed.1.1, chained_of_expression _ formed'.1.1,
        mapTokens, mapTokens, first, block, others]
    | _ => simp [name] at named
  | .arrayAccess .., _, formed, _, _ | .binaryOp .., _, formed, _, _
  | .expressionList .., _, formed, _, _ | .identifier _, _, formed, _, _
  | .literal _, _, formed, _, _ | .notOp _, _, formed, _, _ | .scopeAccess .., _, formed, _, _
  | .statementList _, _, formed, _, _ => by simp [formsStatement] at formed

theorem alternative_of_branches : (x y : Alternative) → x.isFormed → y.isFormed →
    x.branches = y.branches →
    x.chained.mapTokens Token.unplaced = y.chained.mapTokens Token.unplaced
  | .absent, y, _, _, same => by
    rcases y.absent_or_else with rfl | ⟨body, told, _, _⟩
    · rfl
    · rw [told] at same
      cases same
  | .elseIf test body alternative, y, formed, formed', same => by
    rcases y.absent_or_else with rfl | ⟨inside, told, as_else, formed_as⟩
    · cases same
    · rw [told, Alternative.branches, List.cons.injEq, Branch.mk.injEq] at same
      obtain ⟨test', body', alternative', rfl⟩ := lone_of_branches same.1.2.symm
      simp only [branchesOfAll, branch, Branch.mk.injEq, List.cons.injEq, true_and, and_true]
        at same
      simp only [formed_as, allStatements, formsStatement, Bool.and_eq_true, and_true] at formed'
      simp only [Alternative.isFormed, Bool.and_eq_true] at formed
      have first := expression_of_branch test test' formed.1.1 formed'.1.1 same.2.1
      have block := statements_of_branches body body' formed.1.2 formed'.1.2 same.2.2.1
      have others := alternative_of_branches alternative alternative' formed.2 formed'.2 same.2.2.2
      rw [as_else, Alternative.chained, chainedOfAll, chainedOfAll, chained, Alternative.ofElse,
        chained_of_expression _ formed.1.1, chained_of_expression _ formed'.1.1,
        Alternative.mapTokens, Alternative.mapTokens, first, block, others]
  | .elseBlock body, y, formed, formed', same => by
    rcases y.absent_or_else with rfl | ⟨body', told, as_else, formed_as⟩
    · cases same
    · rw [told, Alternative.branches] at same
      simp only [List.cons.injEq, Branch.mk.injEq, true_and, and_true] at same
      rw [formed_as] at formed'
      have block := statements_of_branches body body' formed formed' same
      rw [as_else, Alternative.chained, Alternative.mapTokens_ofElse, block,
        Alternative.mapTokens_ofElse]

theorem statements_of_branches : (as bs : List Node) → allStatements as → allStatements bs →
    branchesOfAll as = branchesOfAll bs →
    mapTokensOfAll Token.unplaced (chainedOfAll as) =
      mapTokensOfAll Token.unplaced (chainedOfAll bs)
  | [], [], _, _, _ => rfl
  | [], _ :: _, _, _, same | _ :: _, [], _, _, same => by cases same
  | a :: as, b :: bs, formed, formed', same => by
    simp only [allStatements, Bool.and_eq_true] at formed formed'
    obtain ⟨first, others⟩ := List.cons.inj same
    rw [chainedOfAll, chainedOfAll, mapTokensOfAll, mapTokensOfAll,
      statement_of_branch a b formed.1 formed'.1 first,
      statements_of_branches as bs formed.2 formed'.2 others]

end

/-- Lines that come from one tree or the other are the same exactly if the trees are equivalent up
to lone conditions in an else. -/
theorem outline_eq_iff {a b : Node} (formed : a.wellFormed) (formed' : b.wellFormed)
    (indent : Nat) : a.outline indent = b.outline indent ↔ a.chained.equivalent b.chained := by
  rw [Node.equivalent_iff_unplaced]
  constructor
  · intro same
    obtain ⟨body, rfl, statements⟩ := wellFormed_iff.mp formed
    obtain ⟨body', rfl, statements'⟩ := wellFormed_iff.mp formed'
    have none_left : Outdented indent [] := by simp [Outdented]
    rw [Node.outline_eq, Node.outline_eq] at same
    have branches := branches_of_lines none_left none_left
      [(statementList body).branch] [(statementList body').branch]
      (by simp only [linesOfAll, same])
    simp only [branch, List.cons.injEq, Branch.mk.injEq, and_true] at branches
    rw [chained, chained, mapTokens, mapTokens,
      statements_of_branches body body' statements statements' branches.2]
  · intro same
    rw [← a.outline_chained, ← b.outline_chained, ← Node.outline_unplaced, same,
      Node.outline_unplaced]

theorem Token.plain_of_legible {t : Token} (legible : t.legible) : t.plain = true :=
  List.all_eq_true.mpr (bne_newline (Token.isToken legible).plain)

theorem plain_of_wellFormed {tree : Node} (formed : tree.wellFormed) :
    tree.tokens.all Token.plain = true := by
  obtain ⟨body, rfl, statements⟩ := wellFormed_iff.mp formed
  rw [allStatements_eq, Bool.and_eq_true] at statements
  rw [tokens, List.all_eq_true]
  intro t member
  exact Token.plain_of_legible (List.all_eq_true.mp statements.2 t member)

/-- Two accepted texts have one outline, for every printer, if and only if their trees are
equivalent once each else block that is a condition alone is read as an else-if, and all of these
are read so. -/
theorem outline_tells_tree (path path' : Path) (text text' : String) (a b : Node)
    (accepted : parse path text = .ok a) (accepted' : parse path' text' = .ok b) :
    (a.outlineText = b.outlineText ↔ a.chained.equivalent b.chained) ∧
      (∀ p : OutlinePrinter,
        (p.print none a).1 = (p.print none b).1 ↔ a.chained.equivalent b.chained) ∧
      a.chained.isChained ∧ b.chained.isChained := by
  have formed := wellFormed_of_parse accepted
  have formed' := wellFormed_of_parse accepted'
  have solid (indent : Nat) := solid_outline (plain_of_wellFormed formed) indent
  have solid' (indent : Nat) := solid_outline (plain_of_wellFormed formed') indent
  have told (indent : Nat) : Outline.text (a.outline indent) = Outline.text (b.outline indent) ↔
      a.chained.equivalent b.chained := by
    rw [← outline_eq_iff formed formed' indent]
    refine ⟨fun same => ?_, congrArg Outline.text⟩
    rw [← Outline.lines_of_text (solid indent), same, Outline.lines_of_text (solid' indent)]
  refine ⟨told 0, fun p => ?_, a.isChained_chained, b.isChained_chained⟩
  rw [← told p.indent]
  constructor
  · intro same
    exact Outline.text_of_bytes (congrArg OutlinePrinted.taken same)
  · intro same
    simp only [OutlinePrinter.print, Outline.bytes_eq, same]

/-- A condition in an else block and an else-if, with a string that looks like a label. -/
theorem outline_tells_tree_else :
    let path : Path := ⟨"BUILD.shi"⟩
    let text := "if (a) \x7b\x7d else \x7b if (b) \x7b x = \"Else: 1 (integer literal)\" \x7d \x7d"
    let text' := "if (a) \x7b\x7d # \n else if (b) \x7b x = \"Else: 1 (integer literal)\" \x7d"
    ∃ a b, parse path text = .ok a ∧ parse path text' = .ok b ∧ a.equivalent b = false ∧
      a.outlineText = b.outlineText := by
  intro path text text'
  obtain ⟨a, accepted, found⟩ := accepted_of_check path text (fun a =>
    (parse path text').toOption.any fun b => a.chained.equivalent b.chained && !a.equivalent b)
    (by decide +kernel)
  obtain ⟨b, accepted', alike⟩ := accepted_of_check path text' _ found
  simp only [Bool.and_eq_true, Bool.not_eq_true'] at alike
  obtain ⟨told, _⟩ := outline_tells_tree path path text text' a b accepted accepted'
  exact ⟨a, b, accepted, accepted', alike.2, told.mpr alike.1⟩

end ShiFormat
