import ShiFormat.Rendering
import ShiFormat.Proofs.Lexing.Reading

/-!
Trees that differ only in the places of their tokens are equivalent and have the same layout.
-/
namespace ShiFormat

theorem ofToken_unplaced (t : Token) : Piece.ofToken t.unplaced = Piece.ofToken t := rfl

theorem spaced_unplaced (t : Token) : Piece.spaced t.unplaced = Piece.spaced t := rfl

namespace Node

@[simp] theorem mapTokens_call (f : Token → Token) (id : Token) (arguments : List Node)
    (block : Option (List Node)) :
    (call id arguments block).mapTokens f =
      call (f id) (mapTokensOfAll f arguments) (block.map (mapTokensOfAll f)) := by
  cases block <;> rfl

theorem operator_unplaced (e : Node) : (e.mapTokens Token.unplaced).operator? = e.operator? := by
  cases e with
  | call id arguments block => cases block <;> rfl
  | _ => rfl

theorem leftNeedsParens_unplaced (op : TokenKind) (e : Node) :
    (e.mapTokens Token.unplaced).leftNeedsParens op = e.leftNeedsParens op := by
  cases e with
  | call id arguments block => cases block <;> rfl
  | _ => rfl

theorem rightNeedsParens_unplaced (op : TokenKind) (e : Node) :
    (e.mapTokens Token.unplaced).rightNeedsParens op = e.rightNeedsParens op := by
  cases e with
  | call id arguments block => cases block <;> rfl
  | _ => rfl

theorem notNeedsParens_unplaced (e : Node) :
    (e.mapTokens Token.unplaced).notNeedsParens = e.notNeedsParens := by
  cases e with
  | call id arguments block => cases block <;> rfl
  | _ => rfl

theorem unranked_unplaced (op : Token) (left right : Node) :
    unranked op.unplaced (left.mapTokens Token.unplaced) (right.mapTokens Token.unplaced) =
      unranked op left right := by
  simp only [unranked, operator_unplaced, Token.unplaced_kind]

mutual

theorem expressionLayout_unplaced : (e : Node) →
    (e.mapTokens Token.unplaced).expressionLayout = e.expressionLayout
  | .arrayAccess id index => by
    simp only [mapTokens, expressionLayout, ofToken_unplaced, expressionLayout_unplaced index]
  | .binaryOp op left right => by
    simp only [mapTokens, expressionLayout, spaced_unplaced, unranked_unplaced, Token.unplaced_kind,
      leftNeedsParens_unplaced, rightNeedsParens_unplaced, expressionLayout_unplaced left,
      expressionLayout_unplaced right]
  | .call id arguments block => by
    simp only [mapTokens_call, expressionLayout, ofToken_unplaced, listLayout_unplaced arguments]
  | .expressionList items => by
    simp only [mapTokens, expressionLayout, listLayout_unplaced items]
  | .notOp operand => by
    simp only [mapTokens, expressionLayout, notNeedsParens_unplaced,
      expressionLayout_unplaced operand]
  | .identifier _ | .literal _ | .scopeAccess .. => rfl
  | .assignment .. | .condition .. | .statementList _ => by simp only [mapTokens, expressionLayout]

theorem listLayout_unplaced : (items : List Node) →
    listLayout (mapTokensOfAll Token.unplaced items) = listLayout items
  | [] => rfl
  | item :: more => by
    simp only [mapTokensOfAll, listLayout, expressionLayout_unplaced item,
      moreLayout_unplaced more]

theorem moreLayout_unplaced : (items : List Node) →
    moreLayout (mapTokensOfAll Token.unplaced items) = moreLayout items
  | [] => rfl
  | item :: more => by
    simp only [mapTokensOfAll, moreLayout, expressionLayout_unplaced item,
      moreLayout_unplaced more]

end

/-- A node that is no statement stands on a line as it stands in an expression. -/
theorem statementLayout_of_expression {level : Nat} {e : Node} (single : e.isStatement = false)
    (plain : e.statements? = none) :
    e.statementLayout level = .indent level :: e.expressionLayout ++ [.newline] := by
  cases e with
  | assignment | call | condition => simp [isStatement, isAssignment, isCall, isCondition] at single
  | statementList => simp [statements?] at plain
  | _ => rfl

mutual

theorem statementLayout_unplaced (level : Nat) : (statement : Node) →
    (statement.mapTokens Token.unplaced).statementLayout level = statement.statementLayout level
  | .assignment op target value => by
    simp only [mapTokens, statementLayout, spaced_unplaced, expressionLayout_unplaced]
  | .call id arguments none => by
    have head := expressionLayout_unplaced (.call id arguments none)
    simp only [mapTokens] at head
    simp only [mapTokens, statementLayout, head]
  | .call id arguments (some body) => by
    have head := expressionLayout_unplaced (.call id arguments none)
    simp only [mapTokens] at head
    simp only [mapTokens, statementLayout, head, statementsLayout_unplaced (level + 1) body]
  | .condition test body alternative => by
    simp only [mapTokens, statementLayout, expressionLayout_unplaced,
      statementsLayout_unplaced (level + 1) body, alternativeLayout_unplaced level alternative]
  | .statementList body => by
    simp only [mapTokens, statementLayout, statementsLayout_unplaced (level + 1) body]
  | .arrayAccess .. | .binaryOp .. | .expressionList .. | .notOp _ => by
    rw [statementLayout_of_expression, statementLayout_of_expression, expressionLayout_unplaced] <;>
      rfl
  | .identifier _ | .literal _ | .scopeAccess .. => rfl

theorem alternativeLayout_unplaced (level : Nat) : (alternative : Alternative) →
    alternativeLayout level (alternative.mapTokens Token.unplaced) =
      alternativeLayout level alternative
  | .absent => rfl
  | .elseIf test body alternative => by
    simp only [Alternative.mapTokens, alternativeLayout, expressionLayout_unplaced,
      statementsLayout_unplaced (level + 1) body, alternativeLayout_unplaced level alternative]
  | .elseBlock body => by
    simp only [Alternative.mapTokens, alternativeLayout, statementsLayout_unplaced (level + 1) body]

theorem statementsLayout_unplaced (level : Nat) : (body : List Node) →
    statementsLayout level (mapTokensOfAll Token.unplaced body) = statementsLayout level body
  | [] => rfl
  | statement :: more => by
    simp only [mapTokensOfAll, statementsLayout, statementLayout_unplaced level statement,
      statementsLayout_unplaced level more]

end

theorem isStatement_unplaced (t : Node) :
    (t.mapTokens Token.unplaced).isStatement = t.isStatement := by
  cases t with
  | call id arguments block => cases block <;> rfl
  | _ => rfl

theorem layout_unplaced (t : Node) : (t.mapTokens Token.unplaced).layout = t.layout := by
  have statement := statementLayout_unplaced 0 t
  have expression := expressionLayout_unplaced t
  have kind := isStatement_unplaced t
  cases t with
  | statementList body => exact statementsLayout_unplaced 0 body
  | call id arguments block =>
    cases block <;> exact statement
  | _ => simp_all only [layout, mapTokens]

end Node

section
open Node
variable {f : Token → Token} {same : Token → Token → Bool}

mutual

/-- Trees agree on all that a change to their tokens keeps apart exactly if the change makes them
equal. -/
theorem Node.agrees_iff (keeps : ∀ s t, same s t ↔ f s = f t) : (a b : Node) →
    (a.agrees same b ↔ a.mapTokens f = b.mapTokens f)
  | .arrayAccess id index, b => by
    cases b <;> simp [agrees, mapTokens, keeps, Node.agrees_iff keeps index]
  | .assignment op target value, b => by
    cases b <;> simp [agrees, mapTokens, keeps, Node.agrees_iff keeps target,
      Node.agrees_iff keeps value, and_assoc]
  | .binaryOp op left right, b => by
    cases b <;> simp [agrees, mapTokens, keeps, Node.agrees_iff keeps left,
      Node.agrees_iff keeps right, and_assoc]
  | .call id arguments none, b => by
    cases b with
    | call _ _ block => cases block <;> simp [agrees, keeps, allAgree_iff keeps arguments]
    | _ => simp [agrees, mapTokens]
  | .call id arguments (some body), b => by
    cases b with
    | call _ _ block =>
      cases block <;> simp [agrees, keeps, allAgree_iff keeps arguments, allAgree_iff keeps body,
        and_assoc]
    | _ => simp [agrees, mapTokens]
  | .condition test body alternative, b => by
    cases b <;> simp [agrees, mapTokens, Node.agrees_iff keeps test, allAgree_iff keeps body,
      Alternative.agrees_iff keeps alternative, and_assoc]
  | .expressionList items, b => by
    cases b <;> simp [agrees, mapTokens, allAgree_iff keeps items]
  | .identifier id, b => by
    cases b <;> simp [agrees, mapTokens, keeps]
  | .literal value, b => by
    cases b <;> simp [agrees, mapTokens, keeps]
  | .notOp operand, b => by
    cases b <;> simp [agrees, mapTokens, Node.agrees_iff keeps operand]
  | .scopeAccess id inner, b => by
    cases b <;> simp [agrees, mapTokens, keeps]
  | .statementList items, b => by
    cases b <;> simp [agrees, mapTokens, allAgree_iff keeps items]

theorem Alternative.agrees_iff (keeps : ∀ s t, same s t ↔ f s = f t) : (a b : Alternative) →
    (a.agrees same b ↔ a.mapTokens f = b.mapTokens f)
  | .absent, b => by
    cases b <;> simp [Alternative.agrees, Alternative.mapTokens]
  | .elseIf test body alternative, b => by
    cases b <;> simp [Alternative.agrees, Alternative.mapTokens, Node.agrees_iff keeps test,
      allAgree_iff keeps body, Alternative.agrees_iff keeps alternative, and_assoc]
  | .elseBlock body, b => by
    cases b <;> simp [Alternative.agrees, Alternative.mapTokens, allAgree_iff keeps body]

theorem allAgree_iff (keeps : ∀ s t, same s t ↔ f s = f t) : (xs ys : List Node) →
    (allAgree same xs ys ↔ mapTokensOfAll f xs = mapTokensOfAll f ys)
  | [], ys => by
    cases ys <;> simp [allAgree, mapTokensOfAll]
  | x :: xs, ys => by
    cases ys <;> simp [allAgree, mapTokensOfAll, Node.agrees_iff keeps x, allAgree_iff keeps xs]

end
end

mutual

theorem Node.mapTokens_mapTokens (f g : Token → Token) : (e : Node) →
    (e.mapTokens f).mapTokens g = e.mapTokens (g ∘ f)
  | .arrayAccess id index => by
    simp only [Node.mapTokens, Node.mapTokens_mapTokens f g index, Function.comp]
  | .assignment op target value => by
    simp only [Node.mapTokens, Node.mapTokens_mapTokens f g target,
      Node.mapTokens_mapTokens f g value, Function.comp]
  | .binaryOp op left right => by
    simp only [Node.mapTokens, Node.mapTokens_mapTokens f g left,
      Node.mapTokens_mapTokens f g right, Function.comp]
  | .call id arguments none => by
    simp only [Node.mapTokens, mapTokensOfAll_mapTokensOfAll f g arguments, Function.comp]
  | .call id arguments (some block) => by
    simp only [Node.mapTokens, mapTokensOfAll_mapTokensOfAll f g arguments,
      mapTokensOfAll_mapTokensOfAll f g block, Function.comp]
  | .condition test body alternative => by
    simp only [Node.mapTokens, Node.mapTokens_mapTokens f g test,
      mapTokensOfAll_mapTokensOfAll f g body, Alternative.mapTokens_mapTokens f g alternative]
  | .expressionList items => by
    simp only [Node.mapTokens, mapTokensOfAll_mapTokensOfAll f g items]
  | .notOp operand => by
    simp only [Node.mapTokens, Node.mapTokens_mapTokens f g operand]
  | .identifier _ | .literal _ | .scopeAccess .. => rfl
  | .statementList items => by
    simp only [Node.mapTokens, mapTokensOfAll_mapTokensOfAll f g items]

theorem Alternative.mapTokens_mapTokens (f g : Token → Token) : (alternative : Alternative) →
    (alternative.mapTokens f).mapTokens g = alternative.mapTokens (g ∘ f)
  | .absent => rfl
  | .elseIf test body alternative => by
    simp only [Alternative.mapTokens, Node.mapTokens_mapTokens f g test,
      mapTokensOfAll_mapTokensOfAll f g body, Alternative.mapTokens_mapTokens f g alternative]
  | .elseBlock body => by
    simp only [Alternative.mapTokens, mapTokensOfAll_mapTokensOfAll f g body]

theorem mapTokensOfAll_mapTokensOfAll (f g : Token → Token) : (items : List Node) →
    mapTokensOfAll g (mapTokensOfAll f items) = mapTokensOfAll (g ∘ f) items
  | [] => rfl
  | item :: more => by
    simp only [mapTokensOfAll, Node.mapTokens_mapTokens f g item,
      mapTokensOfAll_mapTokensOfAll f g more]

end

theorem Token.sameAs_iff (s t : Token) : s.sameAs t ↔ s.unplaced = t.unplaced := by
  simp [Token.sameAs, Token.unplaced]

theorem Node.equivalent_iff_unplaced (a b : Node) :
    a.equivalent b ↔ a.mapTokens Token.unplaced = b.mapTokens Token.unplaced :=
  Node.agrees_iff Token.sameAs_iff a b

/-- A change that leaves the kinds and texts of the tokens alone leaves a tree equivalent. -/
theorem Node.equivalent_mapTokens {f : Token → Token} (same : ∀ t, (f t).unplaced = t.unplaced)
    (e : Node) : e.equivalent (e.mapTokens f) := by
  have kept : Token.unplaced ∘ f = Token.unplaced := funext same
  rw [Node.equivalent_iff_unplaced, Node.mapTokens_mapTokens, kept]

theorem Node.format_unplaced (t : Node) (width : Nat) :
    (t.mapTokens Token.unplaced).format width = t.format width := by
  rw [Node.format, Node.format, Node.layout_unplaced]

theorem Node.format_of_unplaced {a b : Node}
    (eq : a.mapTokens Token.unplaced = b.mapTokens Token.unplaced) (width : Nat) :
    a.format width = b.format width := by
  rw [← Node.format_unplaced a, eq, Node.format_unplaced]

end ShiFormat
