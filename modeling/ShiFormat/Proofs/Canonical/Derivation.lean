import ShiFormat.Proofs.Grammar
import ShiFormat.Proofs.Canonical.WellFormed
import ShiFormat.Proofs.Precedence.Order

/-!
The tokens of a layout derive the tree that was laid out, with exactly as many levels as the tree
asks for. Parentheses stand where the grammar would otherwise take an operand apart.
-/
namespace ShiFormat
open Grammar

/-- The token of this kind that has one spelling, standing nowhere. -/
def Token.fixed (kind : TokenKind) : Token := Token.ofText kind "" .unknown

namespace Piece

def token? : Piece → Option Token
  | .token kind text => some ⟨kind, text, .unknown⟩
  | .openGroup => some (.fixed .leftParen)
  | .closeGroup => some (.fixed .rightParen)
  | .space | .newline | .indent _ | .stop _ => none

/-- The tokens in a layout, standing nowhere. -/
def tokens (pieces : List Piece) : List Token := pieces.filterMap token?

@[simp] theorem tokens_nil : tokens [] = [] := rfl

@[simp] theorem tokens_append (ps qs : List Piece) :
    tokens (ps ++ qs) = tokens ps ++ tokens qs := List.filterMap_append

@[simp] theorem tokens_ofToken (t : Token) (ps : List Piece) :
    tokens (ofToken t :: ps) = t.unplaced :: tokens ps := rfl

@[simp] theorem tokens_mark (kind : TokenKind) (ps : List Piece) :
    tokens (mark kind :: ps) = .fixed kind :: tokens ps := rfl

@[simp] theorem tokens_space (ps : List Piece) : tokens (.space :: ps) = tokens ps := rfl

@[simp] theorem tokens_newline (ps : List Piece) : tokens (.newline :: ps) = tokens ps := rfl

@[simp] theorem tokens_indent (level : Nat) (ps : List Piece) :
    tokens (.indent level :: ps) = tokens ps := rfl

@[simp] theorem tokens_spaced (t : Token) : tokens (spaced t) = [t.unplaced] := rfl

@[simp] theorem tokens_braced (level : Nat) (lines : List Piece) :
    tokens (braced level lines) =
      .fixed .leftBrace :: (tokens lines ++ [.fixed .rightBrace]) := by
  simp [braced]

@[simp] theorem tokens_guarded (test : List Piece) :
    tokens (guarded test) =
      .fixed .ifWord :: .fixed .leftParen :: (tokens test ++ [.fixed .rightParen]) := by
  simp [guarded]

theorem tokens_grouped (inside : List Piece) :
    tokens (grouped true inside) =
      .fixed .leftParen :: (tokens inside ++ [.fixed .rightParen]) := by
  have openGroup (ps : List Piece) : tokens (.openGroup :: ps) = .fixed .leftParen :: tokens ps :=
    rfl
  have closeGroup : tokens [.closeGroup] = [.fixed .rightParen] := rfl
  simp [grouped, openGroup, closeGroup]

end Piece

namespace Node

def expressionTokens (e : Node) : List Token := Piece.tokens e.expressionLayout

/-- The layout of an expression derives it. An expression that is no negation is a chain of
operands, and goes on with any operator that binds no tighter than its own. -/
structure Derives (e : Node) : Prop where
  expression : ∀ m, e.looser (m + 1) = false → Expression m (e.innerLevels + 1) e.expressionTokens
    (e.mapTokens Token.unplaced)
  chain : e.isNegation = false → ∀ m, e.looser (m + 1) = false →
    ∃ ceiling, Chain m ceiling e.innerLevels e.expressionTokens (e.mapTokens Token.unplaced) ∧
      ∀ c ∈ ceiling, ∀ p, e.looser p = false → p ≤ c

theorem Derives.of_primary {e : Node}
    (operand : Primary e.innerLevels e.expressionTokens (e.mapTokens Token.unplaced)) :
    e.Derives where
  expression _ _ := .chain (.primary operand)
  chain _ _ _ := ⟨none, .primary operand, by simp⟩

theorem Derives.parenthesized {e : Node} (h : e.Derives) (formed : e.looser 1 = false) :
    Primary (e.innerLevels + 1) (Piece.tokens (Piece.grouped true e.expressionLayout))
      (e.mapTokens Token.unplaced) := by
  rw [Piece.tokens_grouped]
  exact .parenthesized rfl (h.expression 0 formed) rfl

/-- An operand in parentheses if its operator binds no tighter than the minimum. -/
theorem Derives.grouped {e : Node} (h : e.Derives) (formed : e.looser 1 = false) (m : Nat) :
    Expression m (e.innerLevels + 1 + (e.looser (m + 1)).toNat)
      (Piece.tokens (Piece.grouped (e.looser (m + 1)) e.expressionLayout))
      (e.mapTokens Token.unplaced) := by
  cases parens : e.looser (m + 1) with
  | true => exact .chain (.primary (h.parenthesized formed))
  | false => exact h.expression m parens

theorem binary_of_formed {op : Token} {left right : Node}
    (formed : (Node.binaryOp op left right).formsExpression) :
    op.kind.binaryPrecedence? = some op.kind.rank := by
  simp only [formsExpression, Token.spellsOperator, Bool.and_eq_true] at formed
  obtain ⟨p, precedence⟩ := Option.isSome_iff_exists.mp formed.1.1.1
  rw [TokenKind.rank_of_binary precedence, precedence]

theorem not_looser_of_formed {e : Node} (formed : e.formsExpression) : e.looser 1 = false := by
  cases e with
  | binaryOp op left right =>
    have positive := (TokenKind.binary_bounds (binary_of_formed formed)).1
    simp only [looser_binaryOp, decide_eq_false_iff_not]
    omega
  | _ => rfl

theorem operator_ranked {e : Node} (formed : e.formsExpression) :
    ∀ kind ∈ e.operator?, kind.precedence?.isNone = false := by
  cases e with
  | binaryOp op left right =>
    intro kind member
    cases Option.some.inj member
    rw [TokenKind.precedence_of_binary (binary_of_formed formed)]
    rfl
  | _ => simp [operator?]

theorem unranked_nil {op : Token} {left right : Node}
    (formed : (Node.binaryOp op left right).formsExpression) : unranked op left right = [] := by
  have whole := operator_ranked formed
  simp only [formsExpression, Bool.and_eq_true] at formed
  have left_ranked := operator_ranked formed.1.2
  have right_ranked := operator_ranked formed.2
  unfold unranked
  rw [List.map_eq_nil_iff, List.filter_eq_nil_iff]
  intro kind member
  simp only [List.cons_append, List.mem_cons, List.mem_append, Option.mem_toList] at member
  rcases member with rfl | on_left | on_right
  · simp [whole _ rfl]
  · simp [left_ranked kind on_left]
  · simp [right_ranked kind on_right]

theorem expressionTokens_binaryOp {op : Token} {left right : Node}
    (formed : (Node.binaryOp op left right).formsExpression) :
    (Node.binaryOp op left right).expressionTokens =
      Piece.tokens (Piece.grouped (left.leftNeedsParens op.kind) left.expressionLayout) ++
        op.unplaced ::
          Piece.tokens (Piece.grouped (right.rightNeedsParens op.kind) right.expressionLayout) := by
  simp [expressionTokens, expressionLayout, unranked_nil formed]

/-- An operand on the left, with the parentheses that the operator asks for, can be followed by
the operator. -/
theorem Derives.left_of {e : Node} (h : e.Derives) (formed : e.looser 1 = false) {op : TokenKind}
    {m : Nat} (tighter : m < op.rank) :
    ∃ ceiling, Chain m ceiling (e.innerLevels + (e.leftNeedsParens op).toNat)
      (Piece.tokens (Piece.grouped (e.leftNeedsParens op) e.expressionLayout))
      (e.mapTokens Token.unplaced) ∧ ∀ c ∈ ceiling, op.rank ≤ c := by
  cases parens : e.leftNeedsParens op with
  | true => exact ⟨none, .primary (h.parenthesized formed), by simp⟩
  | false =>
    rw [leftNeedsParens_eq, Bool.or_eq_false_iff] at parens
    obtain ⟨ceiling, chain, below⟩ := h.chain parens.1 m (looser_mono tighter parens.2)
    exact ⟨ceiling, chain, fun c member => below c member op.rank parens.2⟩

theorem expressionTokens_notOp (e : Node) :
    (notOp e).expressionTokens =
      .fixed .bang :: Piece.tokens (Piece.grouped e.notNeedsParens e.expressionLayout) := by
  simp [expressionTokens, expressionLayout]

theorem Derives.negated {e : Node} (h : e.Derives) (formed : e.looser 1 = false) :
    (notOp e).Derives where
  expression m _ := by
    have levels : (notOp e).innerLevels = e.innerLevels + 1 + e.notNeedsParens.toNat := rfl
    rw [expressionTokens_notOp, levels, notNeedsParens_eq]
    exact .negation rfl (h.grouped formed TokenKind.bang.rank)
  chain positive := by simp [isNegation] at positive

theorem Derives.binaryOp {op : Token} {left right : Node} (on_left : left.Derives)
    (on_right : right.Derives) (formed : (Node.binaryOp op left right).formsExpression) :
    (Node.binaryOp op left right).Derives := by
  have precedence := binary_of_formed formed
  have tokens := expressionTokens_binaryOp formed
  simp only [formsExpression, Bool.and_eq_true] at formed
  have chain : ∀ m, m < op.kind.rank → ∃ ceiling,
      Chain m ceiling (Node.binaryOp op left right).innerLevels
        (Node.binaryOp op left right).expressionTokens
        ((Node.binaryOp op left right).mapTokens Token.unplaced) ∧
      ∀ c ∈ ceiling, c = op.kind.rank := by
    intro m tighter
    obtain ⟨ceiling, before, below⟩ := on_left.left_of (not_looser_of_formed formed.1.2) tighter
    have operand := on_right.grouped (not_looser_of_formed formed.2) op.kind.rank
    rw [← rightNeedsParens_eq] at operand
    rw [tokens]
    exact ⟨_, .operator before precedence tighter below operand,
      fun c member => eq_of_mem_ceilingAfter member⟩
  have tighter : ∀ {m}, (Node.binaryOp op left right).looser (m + 1) = false →
      m < op.kind.rank := by
    intro m above
    simp only [looser_binaryOp, decide_eq_false_iff_not] at above
    omega
  constructor
  · intro m above
    obtain ⟨ceiling, operands, _⟩ := chain m (tighter above)
    exact .chain operands
  · intro _ m above
    obtain ⟨ceiling, operands, last⟩ := chain m (tighter above)
    refine ⟨ceiling, operands, ?_⟩
    intro c member p bare
    simp only [looser_binaryOp, decide_eq_false_iff_not] at bare
    rw [last c member]
    omega

theorem kind_of_spellsName {id : Token} (named : id.spellsName) :
    id.unplaced.kind = .identifier := by
  simp only [Token.spellsName, Token.spells, Bool.and_eq_true, decide_eq_true_eq] at named
  simpa using named.1

theorem kind_of_spells {t : Token} {kinds : List TokenKind} (spelled : t.spells kinds) :
    t.unplaced.kind ∈ kinds := by
  simp only [Token.spells, Bool.and_eq_true, decide_eq_true_eq] at spelled
  exact spelled.1

theorem expressionTokens_arrayAccess (id : Token) (index : Node) :
    (arrayAccess id index).expressionTokens =
      id.unplaced :: .fixed .leftBracket ::
        (index.expressionTokens ++ [.fixed .rightBracket]) := by
  simp [expressionTokens, expressionLayout]

theorem expressionTokens_call (id : Token) (arguments : List Node) (block : Option (List Node)) :
    (call id arguments block).expressionTokens =
      id.unplaced :: .fixed .leftParen ::
        (Piece.tokens (listLayout arguments) ++ [.fixed .rightParen]) := by
  simp [expressionTokens, expressionLayout]

theorem expressionTokens_list (items : List Node) :
    (expressionList items).expressionTokens =
      .fixed .leftBracket :: (Piece.tokens (listLayout items) ++ [.fixed .rightBracket]) := by
  simp [expressionTokens, expressionLayout]

theorem tokens_moreLayout (item : Node) (more : List Node) :
    Piece.tokens (moreLayout (item :: more)) =
      .fixed .comma :: Piece.tokens (listLayout (item :: more)) := by
  simp [moreLayout, listLayout]

mutual

/-- By the structure of the tree: each operand derives its own layout. -/
theorem derives : (e : Node) → e.formsExpression → e.Derives
  | .identifier id, formed => by
    exact .of_primary (.identifier (kind_of_spellsName formed))
  | .literal value, formed => by
    exact .of_primary (.literal (kind_of_spells formed))
  | .scopeAccess id inner, formed => by
    simp only [formsExpression, Bool.and_eq_true] at formed
    exact .of_primary
      (.scopeAccess (kind_of_spellsName formed.1) rfl (kind_of_spellsName formed.2))
  | .arrayAccess id index, formed => by
    simp only [formsExpression, Bool.and_eq_true] at formed
    have inside := (derives index formed.2).expression 0 (not_looser_of_formed formed.2)
    apply Derives.of_primary
    rw [expressionTokens_arrayAccess]
    exact .arrayAccess (kind_of_spellsName formed.1) rfl inside rfl
  | .call id arguments none, formed => by
    simp only [formsExpression, Bool.and_eq_true] at formed
    have inside := items_derive arguments formed.2
    apply Derives.of_primary
    rw [expressionTokens_call]
    exact .call (.applied (kind_of_spellsName formed.1) rfl inside rfl)
  | .expressionList items, formed => by
    have inside := items_derive items formed
    apply Derives.of_primary
    rw [expressionTokens_list]
    exact .bracketed rfl inside rfl
  | .notOp operand, formed => (derives operand formed).negated (not_looser_of_formed formed)
  | .binaryOp op left right, formed => by
    have parts := formed
    simp only [formsExpression, Bool.and_eq_true] at parts
    exact (derives left parts.1.2).binaryOp (derives right parts.2) formed
  | .call _ _ (some _), formed | .assignment .., formed | .condition .., formed
  | .statementList _, formed => by simp [formsExpression] at formed

theorem items_derive : (items : List Node) → allExpressions items →
    Items (listLevels items) (Piece.tokens (listLayout items))
      (mapTokensOfAll Token.unplaced items)
  | [], _ => .nil
  | item :: more, formed => by
    simp only [allExpressions, Bool.and_eq_true] at formed
    have first := (derives item formed.1).expression 0 (not_looser_of_formed formed.1)
    have others := items_derive more formed.2
    rw [listLayout, Piece.tokens_append]
    cases more with
    | nil =>
      have alone : listLevels [item] = item.innerLevels + 1 := Nat.max_zero _
      rw [moreLayout, Piece.tokens_nil, List.append_nil, alone]
      exact .last first
    | cons second more =>
      rw [tokens_moreLayout]
      exact .cons first rfl others

end

theorem target_formed {target : Node} (formed : target.formsTarget) :
    ∃ id, target = .identifier id ∧ id.spellsName := by
  cases target with
  | identifier id => exact ⟨id, rfl, formed⟩
  | _ => simp [formsTarget] at formed

theorem Derives.call_head {id : Token} {arguments : List Node} (named : id.spellsName)
    (formed : allExpressions arguments) :
    CallHead (listLevels arguments) (call id arguments none).expressionTokens id.unplaced
      (mapTokensOfAll Token.unplaced arguments) := by
  rw [expressionTokens_call]
  exact .applied (kind_of_spellsName named) rfl (items_derive arguments formed) rfl

theorem derives_block {levels level : Nat} {lines : List Piece} {body : List Node}
    (inside : Statements levels (Piece.tokens lines) body) :
    Block (levels + 1) (Piece.tokens (Piece.braced level lines)) body := by
  rw [Piece.tokens_braced]
  exact .braced rfl inside rfl

section
variable (level : Nat) (id op : Token) (test value : Node) (arguments body : List Node)
  (alternative : Alternative)

theorem tokens_guarded_block (lines : List Piece) :
    Piece.tokens (Piece.guarded test.expressionLayout) ++
        Piece.tokens (Piece.braced level lines) =
      .fixed .ifWord :: .fixed .leftParen :: (test.expressionTokens ++
        .fixed .rightParen :: Piece.tokens (Piece.braced level lines)) := by
  simp [expressionTokens]

theorem tokens_assignment :
    Piece.tokens ((assignment op (.identifier id) value).statementLayout level) =
      id.unplaced :: op.unplaced :: value.expressionTokens := by
  simp [statementLayout, expressionLayout, expressionTokens]

theorem tokens_call :
    Piece.tokens ((call id arguments none).statementLayout level) =
      (call id arguments none).expressionTokens := by
  simp [statementLayout, expressionTokens]

theorem tokens_callBlock :
    Piece.tokens ((call id arguments (some body)).statementLayout level) =
      (call id arguments none).expressionTokens ++
        Piece.tokens (Piece.braced level (statementsLayout (level + 1) body)) := by
  simp [statementLayout, expressionTokens]

theorem tokens_condition :
    Piece.tokens ((condition test body alternative).statementLayout level) =
      (Piece.tokens (Piece.guarded test.expressionLayout) ++
        Piece.tokens (Piece.braced level (statementsLayout (level + 1) body))) ++
        Piece.tokens (alternativeLayout level alternative) := by
  simp [statementLayout]

theorem tokens_elseIf :
    Piece.tokens (alternativeLayout level (.elseIf test body alternative)) =
      .fixed .elseWord :: (Piece.tokens (Piece.guarded test.expressionLayout) ++
        Piece.tokens (Piece.braced level (statementsLayout (level + 1) body)) ++
        Piece.tokens (alternativeLayout level alternative)) := by
  simp [alternativeLayout]

theorem tokens_elseBlock :
    Piece.tokens (alternativeLayout level (.elseBlock body)) =
      .fixed .elseWord ::
        Piece.tokens (Piece.braced level (statementsLayout (level + 1) body)) := by
  simp [alternativeLayout]

end

theorem derives_guarded {test : Node} {levels level : Nat} {lines : List Piece} {body : List Node}
    (formed : test.formsExpression) (inside : Statements levels (Piece.tokens lines) body) :
    Guarded (max (test.innerLevels + 1) (levels + 1))
      (Piece.tokens (Piece.guarded test.expressionLayout) ++
        Piece.tokens (Piece.braced level lines))
      (test.mapTokens Token.unplaced) body := by
  have condition := (derives test formed).expression 0 (not_looser_of_formed formed)
  have block : Block (levels + 1) (Piece.tokens (Piece.braced level lines)) body :=
    derives_block inside
  rw [tokens_guarded_block]
  exact .guarded rfl rfl condition rfl block

mutual

theorem statement_derives (level : Nat) : (statement : Node) → statement.formsStatement →
    Statement statement.statementLevels (Piece.tokens (statement.statementLayout level))
      (statement.mapTokens Token.unplaced)
  | .assignment op target value, formed => by
    simp only [formsStatement, Bool.and_eq_true] at formed
    obtain ⟨id, rfl, named⟩ := target_formed formed.1.1
    have right := (derives value formed.2).expression 0 (not_looser_of_formed formed.2)
    rw [tokens_assignment]
    exact .assignment (kind_of_spellsName named) (kind_of_spells formed.1.2) right
  | .call id arguments none, formed => by
    simp only [formsStatement, Bool.and_eq_true] at formed
    rw [tokens_call]
    exact .call (Derives.call_head formed.1 formed.2)
  | .call id arguments (some body), formed => by
    simp only [formsStatement, Bool.and_eq_true] at formed
    have inside := statements_derive (level + 1) body formed.2
    rw [tokens_callBlock]
    exact .callBlock (Derives.call_head formed.1.1 formed.1.2) (derives_block inside)
  | .condition test body alternative, formed => by
    simp only [formsStatement, Bool.and_eq_true] at formed
    have inside := statements_derive (level + 1) body formed.1.2
    have otherwise := alternative_derives level alternative formed.2
    rw [tokens_condition]
    exact .condition (derives_guarded formed.1.1 inside) otherwise
  | .arrayAccess .., formed | .binaryOp .., formed | .expressionList .., formed
  | .identifier _, formed | .literal _, formed | .notOp _, formed | .scopeAccess .., formed
  | .statementList _, formed => by simp [formsStatement] at formed

theorem alternative_derives (level : Nat) : (alternative : Alternative) → alternative.isFormed →
    Otherwise alternative.levels (Piece.tokens (alternativeLayout level alternative))
      (alternative.mapTokens Token.unplaced)
  | .absent, _ => .absent
  | .elseIf test body alternative, formed => by
    simp only [Alternative.isFormed, Bool.and_eq_true] at formed
    have inside := statements_derive (level + 1) body formed.1.2
    have otherwise := alternative_derives level alternative formed.2
    rw [tokens_elseIf]
    exact .elseIf rfl (derives_guarded formed.1.1 inside) otherwise
  | .elseBlock body, formed => by
    have inside := statements_derive (level + 1) body formed
    rw [tokens_elseBlock]
    exact .elseBlock rfl (derives_block inside)

theorem statements_derive (level : Nat) : (body : List Node) → allStatements body →
    Statements (bodyLevels body) (Piece.tokens (statementsLayout level body))
      (mapTokensOfAll Token.unplaced body)
  | [], _ => .nil
  | statement :: more, formed => by
    simp only [allStatements, Bool.and_eq_true] at formed
    rw [statementsLayout, Piece.tokens_append]
    exact .cons (statement_derives level statement formed.1)
      (statements_derive level more formed.2)

end

end Node
end ShiFormat
