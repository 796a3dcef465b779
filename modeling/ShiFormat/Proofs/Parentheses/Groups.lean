import ShiFormat.Proofs.Canonical.Equivalence

/-!
The grouping parentheses of a layout, pair by pair: what is laid out before, inside and after each.
-/
namespace ShiFormat
open Piece

/-- A pair of parentheses around an operand. -/
structure Group where
  before : List Piece
  inside : List Piece
  after : List Piece
  /-- The operand is on the left of an operator, and is an operation with a negation on its
  right. -/
  spared : Bool

namespace Group

/-- The layout with the pair left out. -/
def removed (g : Group) : List Piece := g.before ++ g.inside ++ g.after

/-- The pair around an operand, if there is one. -/
def around (parens spared : Bool) (before inside after : List Piece) : List Group :=
  if parens then [⟨before, inside, after, spared⟩] else []

end Group

namespace Piece
variable (level : Nat)

def opened (parens : Bool) : List Piece := if parens then [.openGroup] else []

def closed (parens : Bool) : List Piece := if parens then [.closeGroup] else []

theorem grouped_eq (parens : Bool) (inside : List Piece) :
    grouped parens inside = opened parens ++ inside ++ closed parens := by
  cases parens <;> simp [grouped, opened, closed]

/-- What is laid out before the lines of a block. -/
def blockStart : List Piece := [mark .leftBrace, .newline]

/-- What is laid out after the lines of a block. -/
def blockEnd : List Piece := [.indent level, mark .rightBrace]

theorem braced_eq (lines : List Piece) :
    braced level lines = blockStart ++ lines ++ blockEnd level := rfl

/-- What is laid out between a condition and what follows it. -/
def elseStart : List Piece := [.space, mark .elseWord, .space]

def guardStart : List Piece := [mark .ifWord, .space, mark .leftParen]

def guardEnd : List Piece := [mark .rightParen, .space]

theorem guarded_eq (test : List Piece) : guarded test = guardStart ++ test ++ guardEnd := rfl

end Piece

namespace Node

/-- An operation with a negation on its right. -/
def endsNegated : Node → Bool
  | .binaryOp _ _ (.notOp _) => true
  | _ => false

/-- An operation up to its right operand. -/
def leftLayout (op : Token) (left right : Node) : List Piece :=
  unranked op left right ++ grouped (left.leftNeedsParens op.kind) left.expressionLayout ++
    spaced op

/-- The right operand of an operation. -/
def rightLayout (op : Token) (right : Node) : List Piece :=
  grouped (right.rightNeedsParens op.kind) right.expressionLayout

mutual

/-- The pairs in the layout of an expression that has these pieces before and after it. -/
def expressionGroups (before after : List Piece) : Node → List Group
  | .arrayAccess id index =>
    index.expressionGroups (before ++ [ofToken id, mark .leftBracket]) (mark .rightBracket :: after)
  | .binaryOp op left right =>
    let parens := left.leftNeedsParens op.kind
    let parens' := right.rightNeedsParens op.kind
    (Group.around parens left.endsNegated (before ++ unranked op left right) left.expressionLayout
        (spaced op ++ (rightLayout op right ++ after)) ++
      left.expressionGroups (before ++ unranked op left right ++ opened parens)
        (closed parens ++ (spaced op ++ (rightLayout op right ++ after)))) ++
    (Group.around parens' false (before ++ leftLayout op left right) right.expressionLayout after ++
      right.expressionGroups (before ++ leftLayout op left right ++ opened parens')
        (closed parens' ++ after))
  | .call id arguments _ =>
    listGroups (before ++ [ofToken id, mark .leftParen]) (mark .rightParen :: after) arguments
  | .expressionList items =>
    listGroups (before ++ [mark .leftBracket]) (mark .rightBracket :: after) items
  | .notOp operand =>
    let parens := operand.notNeedsParens
    Group.around parens false (before ++ [mark .bang]) operand.expressionLayout after ++
      operand.expressionGroups (before ++ [mark .bang] ++ opened parens) (closed parens ++ after)
  | .identifier _ | .literal _ | .scopeAccess .. => []
  | .assignment .. | .condition .. | .statementList _ => []

def listGroups (before after : List Piece) : List Node → List Group
  | [] => []
  | first :: more =>
    first.expressionGroups before (moreLayout more ++ after) ++
      moreGroups (before ++ first.expressionLayout) after more

def moreGroups (before after : List Piece) : List Node → List Group
  | [] => []
  | item :: more =>
    item.expressionGroups (before ++ [mark .comma, .space]) (moreLayout more ++ after) ++
      moreGroups (before ++ ([mark .comma, .space] ++ item.expressionLayout)) after more

end

mutual

def statementGroups (level : Nat) (before after : List Piece) : Node → List Group
  | .assignment op target value =>
    target.expressionGroups (before ++ [.indent level])
        (spaced op ++ (value.expressionLayout ++ .newline :: after)) ++
      value.expressionGroups (before ++ (.indent level :: target.expressionLayout ++ spaced op))
        (.newline :: after)
  | .call id arguments none =>
    (call id arguments none).expressionGroups (before ++ [.indent level]) (.newline :: after)
  | .call id arguments (some body) =>
    (call id arguments none).expressionGroups (before ++ [.indent level])
        (.space :: braced level (statementsLayout (level + 1) body) ++ .newline :: after) ++
      statementsGroups (level + 1)
        (before ++ (.indent level :: (call id arguments none).expressionLayout) ++ [.space] ++
          blockStart)
        (blockEnd level ++ .newline :: after) body
  | .condition test body alternative =>
    test.expressionGroups (before ++ [.indent level] ++ guardStart)
        (guardEnd ++ (braced level (statementsLayout (level + 1) body) ++
          (alternativeLayout level alternative ++ .newline :: after))) ++
      statementsGroups (level + 1)
        (before ++ (.indent level :: guarded test.expressionLayout) ++ blockStart)
        (blockEnd level ++ (alternativeLayout level alternative ++ .newline :: after)) body ++
      alternativeGroups level
        (before ++ (.indent level :: guarded test.expressionLayout ++
          braced level (statementsLayout (level + 1) body)))
        (.newline :: after) alternative
  | .statementList body =>
    statementsGroups (level + 1) (before ++ [.indent level] ++ blockStart)
      (blockEnd level ++ .newline :: after) body
  | other => other.expressionGroups (before ++ [.indent level]) (.newline :: after)

def alternativeGroups (level : Nat) (before after : List Piece) : Alternative → List Group
  | .absent => []
  | .elseIf test body alternative =>
    test.expressionGroups (before ++ elseStart ++ guardStart)
        (guardEnd ++ (braced level (statementsLayout (level + 1) body) ++
          (alternativeLayout level alternative ++ after))) ++
      statementsGroups (level + 1)
        (before ++ (elseStart ++ guarded test.expressionLayout) ++ blockStart)
        (blockEnd level ++ (alternativeLayout level alternative ++ after)) body ++
      alternativeGroups level
        (before ++ (elseStart ++ guarded test.expressionLayout ++
          braced level (statementsLayout (level + 1) body)))
        after alternative
  | .elseBlock body =>
    statementsGroups (level + 1) (before ++ elseStart ++ blockStart) (blockEnd level ++ after) body

def statementsGroups (level : Nat) (before after : List Piece) : List Node → List Group
  | [] => []
  | first :: more =>
    first.statementGroups level before (statementsLayout level more ++ after) ++
      statementsGroups level (before ++ first.statementLayout level) after more

end

/-- All pairs of grouping parentheses in the layout of a tree. -/
def groups : Node → List Group
  | .statementList items => statementsGroups 0 [] [] items
  | node => if node.isStatement then node.statementGroups 0 [] [] else node.expressionGroups [] []

end Node

/-- The pairs are those of some pieces, with others before and after them: each of them stands
there, and they account for every opening parenthesis. -/
structure Covers (before pieces after : List Piece) (gs : List Group) : Prop where
  stands : ∀ g ∈ gs, before ++ pieces ++ after =
    g.before ++ .openGroup :: g.inside ++ .closeGroup :: g.after
  all : ∀ front back, pieces = front ++ .openGroup :: back → ∃ g ∈ gs, g.before = before ++ front

namespace Covers
variable {before ps qs after : List Piece} {gs hs : List Group}

theorem quiet (none : .openGroup ∉ ps) : Covers before ps after [] where
  stands _ member := by cases member
  all front back split := by simp [split] at none

theorem append (first : Covers before ps (qs ++ after) gs)
    (second : Covers (before ++ ps) qs after hs) : Covers before (ps ++ qs) after (gs ++ hs) where
  stands g member := by
    rcases List.mem_append.mp member with here | there
    · rw [← first.stands g here]
      simp
    · rw [← second.stands g there]
      simp
  all front back split := by
    rcases List.append_eq_append_iff.mp split with ⟨rest, rfl, later⟩ | ⟨rest, rfl, here⟩
    · obtain ⟨g, member, same⟩ := second.all rest back later
      exact ⟨g, List.mem_append_right gs member, by simp [same]⟩
    · cases rest with
      | nil =>
        obtain ⟨g, member, same⟩ := second.all [] back here.symm
        exact ⟨g, List.mem_append_right gs member, by simp [same]⟩
      | cons p rest =>
        cases here
        obtain ⟨g, member, same⟩ := first.all front rest rfl
        exact ⟨g, List.mem_append_left hs member, same⟩

theorem behind (front : List Piece) (none : .openGroup ∉ front)
    (h : Covers (before ++ front) ps after gs) : Covers before (front ++ ps) after gs :=
  append (quiet none) h

theorem ahead (back : List Piece) (none : .openGroup ∉ back)
    (h : Covers before ps (back ++ after) gs) : Covers before (ps ++ back) after gs := by
  have both := append h (quiet none)
  rwa [List.append_nil] at both

theorem grouped {parens : Bool} (spared : Bool)
    (h : Covers (before ++ opened parens) ps (closed parens ++ after) gs) :
    Covers before (grouped parens ps) after (Group.around parens spared before ps after ++ gs) := by
  cases parens with
  | false =>
    rw [opened, closed] at h
    simpa [grouped_eq, opened, closed, Group.around] using h
  | true =>
    have inner : Covers (before ++ [.openGroup]) (ps ++ [.closeGroup]) after gs :=
      h.ahead [.closeGroup] (by simp)
    constructor
    · intro g member
      rcases List.mem_cons.mp member with rfl | member
      · simp [Piece.grouped]
      · rw [← inner.stands g member]
        simp [Piece.grouped]
    · intro front back split
      cases front with
      | nil => exact ⟨_, List.mem_cons_self, (List.append_nil before).symm⟩
      | cons p front =>
        obtain ⟨rfl, later⟩ := List.cons.inj split
        obtain ⟨g, member, same⟩ := inner.all front back later
        exact ⟨g, List.mem_cons_of_mem _ member, by simp [same]⟩

theorem guarded (h : Covers (before ++ guardStart) ps (guardEnd ++ after) gs) :
    Covers before (guarded ps) after gs := by
  rw [guarded_eq]
  exact .ahead _ (by decide) (.behind _ (by decide) h)

theorem braced {level : Nat} (h : Covers (before ++ blockStart) ps (blockEnd level ++ after) gs) :
    Covers before (braced level ps) after gs := by
  rw [braced_eq]
  exact .ahead _ (by simp [blockEnd, mark]) (.behind _ (by decide) h)

end Covers

namespace Node

/-- Further items have the pairs of a list that starts after a comma. -/
theorem moreGroups_eq (before after : List Piece) (items : List Node) :
    moreGroups before after items = listGroups (before ++ [mark .comma, .space]) after items := by
  cases items with
  | nil => rfl
  | cons item more => rw [moreGroups, listGroups, List.append_assoc before]

theorem openGroup_not_unranked (op : Token) (left right : Node) :
    .openGroup ∉ unranked op left right := by
  simp [unranked]

mutual

theorem expression_covers (before after : List Piece) : (e : Node) →
    Covers before e.expressionLayout after (e.expressionGroups before after)
  | .arrayAccess id index => by
    have inside := expression_covers (before ++ [ofToken id, mark .leftBracket])
      (mark .rightBracket :: after) index
    exact .ahead [_] (by simp [mark]) (.behind [_, _] (by simp [ofToken, mark]) inside)
  | .binaryOp op left right => by
    refine .append (.ahead _ ?_ (.behind _ ?_ (.grouped _ ?_))) (.grouped false ?_)
    · simp [spaced, ofToken]
    · exact openGroup_not_unranked op left right
    · exact expression_covers _ _ left
    · exact expression_covers _ _ right
  | .call id arguments _ => by
    have inside := list_covers (before ++ [ofToken id, mark .leftParen])
      (mark .rightParen :: after) arguments
    exact .ahead [_] (by simp [mark]) (.behind [_, _] (by simp [ofToken, mark]) inside)
  | .expressionList items => by
    have inside := list_covers (before ++ [mark .leftBracket]) (mark .rightBracket :: after) items
    exact .ahead [_] (by simp [mark]) (.behind [_] (by simp [mark]) inside)
  | .notOp operand => by
    refine .behind [mark .bang] (by decide) (.grouped false ?_)
    exact expression_covers _ _ operand
  | .identifier _ | .literal _ => .quiet (by simp [expressionLayout, ofToken])
  | .scopeAccess .. => .quiet (by simp [expressionLayout, ofToken, mark])
  | .assignment .. | .condition .. | .statementList _ => .quiet (by simp [expressionLayout])

theorem list_covers (before after : List Piece) : (items : List Node) →
    Covers before (listLayout items) after (listGroups before after items)
  | [] => .quiet List.not_mem_nil
  | first :: more => by
    have here := expression_covers before (moreLayout more ++ after) first
    exact .append here (more_covers _ after more)

theorem more_covers (before after : List Piece) : (items : List Node) →
    Covers before (moreLayout items) after (moreGroups before after items)
  | [] => .quiet List.not_mem_nil
  | item :: more => by
    have here := expression_covers (before ++ [mark .comma, .space]) (moreLayout more ++ after) item
    exact .append (.behind [_, _] (by simp [mark]) here) (more_covers _ after more)

end

/-- An expression on a line of its own. -/
theorem line_covers (level : Nat) (before after : List Piece) (e : Node) :
    Covers before (.indent level :: e.expressionLayout ++ [.newline]) after
      (e.expressionGroups (before ++ [.indent level]) (.newline :: after)) := by
  have line := expression_covers (before ++ [.indent level]) (.newline :: after) e
  exact .ahead [_] (by simp) (.behind [_] (by simp) line)

mutual

theorem statement_covers (level : Nat) (before after : List Piece) : (statement : Node) →
    Covers before (statement.statementLayout level) after
      (statement.statementGroups level before after)
  | .assignment op target value => by
    have onLeft := expression_covers (before ++ [.indent level])
      (spaced op ++ (value.expressionLayout ++ .newline :: after)) target
    have onRight := expression_covers
      (before ++ (.indent level :: target.expressionLayout ++ spaced op)) (.newline :: after) value
    refine .ahead [_] (by simp) (.append (.ahead _ ?_ (.behind [_] (by simp) onLeft)) onRight)
    simp [spaced, ofToken]
  | .call id arguments none => by
    have head := expression_covers (before ++ [.indent level]) (.newline :: after)
      (call id arguments none)
    exact .ahead [_] (by simp) (.behind [_] (by simp) head)
  | .call id arguments (some body) => by
    have head := expression_covers (before ++ [.indent level])
      (.space :: braced level (statementsLayout (level + 1) body) ++ .newline :: after)
      (call id arguments none)
    have lines := statements_covers (level + 1)
      (before ++ (.indent level :: (call id arguments none).expressionLayout) ++ [.space] ++
        blockStart) (blockEnd level ++ .newline :: after) body
    exact .ahead [_] (by simp)
      (.append (.behind [_] (by simp) head) (.behind [_] (by simp) lines.braced))
  | .condition test body alternative => by
    have condition := expression_covers (before ++ [.indent level] ++ guardStart)
      (guardEnd ++ (braced level (statementsLayout (level + 1) body) ++
        (alternativeLayout level alternative ++ .newline :: after))) test
    have lines := statements_covers (level + 1)
      (before ++ (.indent level :: guarded test.expressionLayout) ++ blockStart)
      (blockEnd level ++ (alternativeLayout level alternative ++ .newline :: after)) body
    have otherwise := alternative_covers level
      (before ++ (.indent level :: guarded test.expressionLayout ++
        braced level (statementsLayout (level + 1) body))) (.newline :: after) alternative
    exact .ahead [_] (by simp)
      (.append (.append (.behind [_] (by simp) condition.guarded) lines.braced) otherwise)
  | .statementList body => by
    have lines := statements_covers (level + 1) (before ++ [.indent level] ++ blockStart)
      (blockEnd level ++ .newline :: after) body
    exact .ahead [_] (by simp) (.behind [_] (by simp) lines.braced)
  | .arrayAccess id index => line_covers level before after (.arrayAccess id index)
  | .binaryOp op left right => line_covers level before after (.binaryOp op left right)
  | .expressionList items => line_covers level before after (.expressionList items)
  | .identifier id => line_covers level before after (.identifier id)
  | .literal value => line_covers level before after (.literal value)
  | .notOp operand => line_covers level before after (.notOp operand)
  | .scopeAccess id inner => line_covers level before after (.scopeAccess id inner)

theorem alternative_covers (level : Nat) (before after : List Piece) :
    (alternative : Alternative) →
    Covers before (alternativeLayout level alternative) after
      (alternativeGroups level before after alternative)
  | .absent => .quiet List.not_mem_nil
  | .elseIf test body alternative => by
    have condition := expression_covers (before ++ elseStart ++ guardStart)
      (guardEnd ++ (braced level (statementsLayout (level + 1) body) ++
        (alternativeLayout level alternative ++ after))) test
    have lines := statements_covers (level + 1)
      (before ++ (elseStart ++ guarded test.expressionLayout) ++ blockStart)
      (blockEnd level ++ (alternativeLayout level alternative ++ after)) body
    have otherwise := alternative_covers level
      (before ++ (elseStart ++ guarded test.expressionLayout ++
        braced level (statementsLayout (level + 1) body))) after alternative
    exact .append (.append (.behind elseStart (by decide) condition.guarded) lines.braced) otherwise
  | .elseBlock body => by
    have lines := statements_covers (level + 1) (before ++ elseStart ++ blockStart)
      (blockEnd level ++ after) body
    exact .behind elseStart (by decide) lines.braced

theorem statements_covers (level : Nat) (before after : List Piece) : (body : List Node) →
    Covers before (statementsLayout level body) after (statementsGroups level before after body)
  | [] => .quiet List.not_mem_nil
  | first :: more => by
    have here := statement_covers level before (statementsLayout level more ++ after) first
    exact .append here (statements_covers level _ after more)

end

/-- The pairs of a tree are the pairs of parentheses in its layout. -/
theorem layout_covers (t : Node) : Covers [] t.layout [] t.groups := by
  cases t with
  | statementList items => exact statements_covers 0 [] [] items
  | assignment | call | condition => exact statement_covers 0 [] [] _
  | _ => exact expression_covers [] [] _

theorem endsNegated_unplaced (e : Node) :
    (e.mapTokens Token.unplaced).endsNegated = e.endsNegated := by
  cases e with
  | binaryOp op left right =>
    cases right with
    | call id arguments block => cases block <;> rfl
    | _ => rfl
  | call id arguments block => cases block <;> rfl
  | _ => rfl

theorem leftLayout_unplaced (op : Token) (left right : Node) :
    leftLayout op.unplaced (left.mapTokens Token.unplaced) (right.mapTokens Token.unplaced) =
      leftLayout op left right := by
  simp only [leftLayout, unranked_unplaced, leftNeedsParens_unplaced, expressionLayout_unplaced,
    spaced_unplaced, Token.unplaced_kind]

theorem rightLayout_unplaced (op : Token) (right : Node) :
    rightLayout op.unplaced (right.mapTokens Token.unplaced) = rightLayout op right := by
  simp only [rightLayout, rightNeedsParens_unplaced, expressionLayout_unplaced, Token.unplaced_kind]

mutual

theorem expressionGroups_unplaced (before after : List Piece) : (e : Node) →
    (e.mapTokens Token.unplaced).expressionGroups before after = e.expressionGroups before after
  | .arrayAccess id index => by
    simp only [mapTokens, expressionGroups, ofToken_unplaced, expressionGroups_unplaced _ _ index]
  | .binaryOp op left right => by
    simp only [mapTokens, expressionGroups, spaced_unplaced, unranked_unplaced, Token.unplaced_kind,
      leftNeedsParens_unplaced, rightNeedsParens_unplaced, endsNegated_unplaced,
      expressionLayout_unplaced, leftLayout_unplaced, rightLayout_unplaced,
      expressionGroups_unplaced _ _ left, expressionGroups_unplaced _ _ right]
  | .call id arguments block => by
    simp only [mapTokens_call, expressionGroups, ofToken_unplaced,
      listGroups_unplaced _ _ arguments]
  | .expressionList items => by
    simp only [mapTokens, expressionGroups, listGroups_unplaced _ _ items]
  | .notOp operand => by
    simp only [mapTokens, expressionGroups, notNeedsParens_unplaced, expressionLayout_unplaced,
      expressionGroups_unplaced _ _ operand]
  | .identifier _ | .literal _ | .scopeAccess .. => rfl
  | .assignment .. | .condition .. | .statementList _ => by simp only [mapTokens, expressionGroups]

theorem listGroups_unplaced (before after : List Piece) : (items : List Node) →
    listGroups before after (mapTokensOfAll Token.unplaced items) = listGroups before after items
  | [] => rfl
  | first :: more => by
    simp only [mapTokensOfAll, listGroups, moreLayout_unplaced, expressionLayout_unplaced,
      expressionGroups_unplaced _ _ first, moreGroups_unplaced _ _ more]

theorem moreGroups_unplaced (before after : List Piece) : (items : List Node) →
    moreGroups before after (mapTokensOfAll Token.unplaced items) = moreGroups before after items
  | [] => rfl
  | item :: more => by
    simp only [mapTokensOfAll, moreGroups, moreLayout_unplaced, expressionLayout_unplaced,
      expressionGroups_unplaced _ _ item, moreGroups_unplaced _ _ more]

end

/-- A node that is no statement has on a line the pairs that it has in an expression. -/
theorem statementGroups_of_expression {level : Nat} {before after : List Piece} {e : Node}
    (single : e.isStatement = false) (plain : e.statements? = none) :
    e.statementGroups level before after =
      e.expressionGroups (before ++ [.indent level]) (.newline :: after) := by
  cases e with
  | assignment | call | condition => simp [isStatement, isAssignment, isCall, isCondition] at single
  | statementList => simp [statements?] at plain
  | _ => rfl

mutual

theorem statementGroups_unplaced (level : Nat) (before after : List Piece) : (statement : Node) →
    (statement.mapTokens Token.unplaced).statementGroups level before after =
      statement.statementGroups level before after
  | .assignment op target value => by
    simp only [mapTokens, statementGroups, spaced_unplaced, expressionLayout_unplaced,
      expressionGroups_unplaced]
  | .call id arguments none => by
    have head := expressionGroups_unplaced (before ++ [.indent level]) (.newline :: after)
      (.call id arguments none)
    simp only [mapTokens] at head
    simp only [mapTokens, statementGroups, head]
  | .call id arguments (some body) => by
    have head := expressionLayout_unplaced (.call id arguments none)
    have groups := fun before after =>
      expressionGroups_unplaced before after (.call id arguments none)
    simp only [mapTokens] at head groups
    simp only [mapTokens, statementGroups, head, groups, statementsLayout_unplaced,
      statementsGroups_unplaced (level + 1) _ _ body]
  | .condition test body alternative => by
    simp only [mapTokens, statementGroups, expressionLayout_unplaced, expressionGroups_unplaced,
      statementsLayout_unplaced, alternativeLayout_unplaced,
      statementsGroups_unplaced (level + 1) _ _ body,
      alternativeGroups_unplaced level _ _ alternative]
  | .statementList body => by
    simp only [mapTokens, statementGroups, statementsGroups_unplaced (level + 1) _ _ body]
  | .arrayAccess .. | .binaryOp .. | .expressionList .. | .notOp _ => by
    rw [statementGroups_of_expression, statementGroups_of_expression, expressionGroups_unplaced] <;>
      rfl
  | .identifier _ | .literal _ | .scopeAccess .. => rfl

theorem alternativeGroups_unplaced (level : Nat) (before after : List Piece) :
    (alternative : Alternative) →
    alternativeGroups level before after (alternative.mapTokens Token.unplaced) =
      alternativeGroups level before after alternative
  | .absent => rfl
  | .elseIf test body alternative => by
    simp only [Alternative.mapTokens, alternativeGroups, expressionLayout_unplaced,
      expressionGroups_unplaced, statementsLayout_unplaced, alternativeLayout_unplaced,
      statementsGroups_unplaced (level + 1) _ _ body,
      alternativeGroups_unplaced level _ _ alternative]
  | .elseBlock body => by
    simp only [Alternative.mapTokens, alternativeGroups,
      statementsGroups_unplaced (level + 1) _ _ body]

theorem statementsGroups_unplaced (level : Nat) (before after : List Piece) : (body : List Node) →
    statementsGroups level before after (mapTokensOfAll Token.unplaced body) =
      statementsGroups level before after body
  | [] => rfl
  | first :: more => by
    simp only [mapTokensOfAll, statementsGroups, statementsLayout_unplaced,
      statementLayout_unplaced, statementGroups_unplaced level _ _ first,
      statementsGroups_unplaced level _ _ more]

end

end Node
end ShiFormat
