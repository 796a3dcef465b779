import ShiFormat.Proofs.Canonical.Parsed
import ShiFormat.Proofs.Canonical.RoundTrip
import ShiFormat.Proofs.Lexing.Comments

/-!
What formatting leaves alone: apart from comments, parentheses and commas, the canonical text of an
accepted text has the same tokens in the same order.
-/
namespace ShiFormat
open Grammar

/-- Parentheses and commas: formatting may add or leave out some of them. -/
def TokenKind.isGrouping (kind : TokenKind) : Bool :=
  kind == .leftParen || kind == .rightParen || kind == .comma

/-- The kinds and texts of all tokens but parentheses and commas. -/
def content (ts : List Token) : List (TokenKind × String) :=
  (ts.filter fun t => !t.kind.isGrouping).map fun t => (t.kind, t.value)

theorem content_append (ts us : List Token) : content (ts ++ us) = content ts ++ content us := by
  simp [content]

theorem content_unplaced (ts : List Token) : content (ts.map Token.unplaced) = content ts := by
  rw [content, List.filter_map, List.map_map]
  rfl

theorem content_skip {t : Token} (grouping : t.kind.isGrouping = true) (ts : List Token) :
    content (t :: ts) = content ts := by
  simp [content, grouping]

theorem content_skip_kind {t : Token} {kind : TokenKind} (same : t.kind = kind)
    (grouping : kind.isGrouping = true) (ts : List Token) : content (t :: ts) = content ts :=
  content_skip (by rw [same, grouping]) ts

theorem content_parenthesized {opening closing : Token} (opens : opening.kind = .leftParen)
    (closes : closing.kind = .rightParen) (ts : List Token) :
    content (opening :: (ts ++ [closing])) = content ts := by
  rw [content_skip_kind opens rfl, content_append, content_skip_kind closes rfl]
  exact List.append_nil _

/-- Tokens of one kind and text have the same part in a content. -/
theorem content_cons_congr {t u : Token} {ts us : List Token} (same : t.unplaced = u.unplaced)
    (rest : content ts = content us) : content (t :: ts) = content (u :: us) := by
  rw [← content_unplaced (t :: ts), ← content_unplaced (u :: us), List.map_cons, List.map_cons,
    same, ← List.singleton_append, content_append, content_unplaced, rest, ← content_unplaced us,
    ← content_append, List.singleton_append]

theorem content_append_congr {ts us vs ws : List Token} (first : content ts = content us)
    (second : content vs = content ws) : content (ts ++ vs) = content (us ++ ws) := by
  rw [content_append, content_append, first, second]

/-- A token that was read has the one spelling of its kind, if its kind has one. -/
theorem Token.unplaced_eq_fixed {t : Token} {kind : TokenKind} (legible : t.legible)
    (same : t.kind = kind) (spelled : kind.spelling?.isSome = true) :
    t.unplaced = (Token.fixed kind).unplaced := by
  obtain ⟨text, spelling⟩ := Option.isSome_iff_exists.mp spelled
  have value := (Lexeme.begins_of_reads legible).spelling
  rw [same, spelling, Option.getD_some, String.ofList_toList] at value
  simp [unplaced, fixed, ofText, same, spelling, ← value]

theorem content_grouped (parens : Bool) (inside : List Piece) :
    content (Piece.tokens (Piece.grouped parens inside)) = content (Piece.tokens inside) := by
  cases parens with
  | true => rw [Piece.tokens_grouped, content_parenthesized rfl rfl]
  | false => rfl

theorem content_moreLayout (items : List Node) :
    content (Piece.tokens (Node.moreLayout items)) =
      content (Piece.tokens (Node.listLayout items)) := by
  cases items with
  | nil => rfl
  | cons item more => rw [Node.tokens_moreLayout, content_skip rfl]

namespace Grammar
open Node

section
variable {opening closing : Token} {first last : TokenKind} {ts us : List Token}

theorem content_fixed {t : Token} {kind : TokenKind} (legible : t.legible) (same : t.kind = kind)
    (spelled : kind.spelling?.isSome = true) (rest : content ts = content us) :
    content (t :: ts) = content (.fixed kind :: us) :=
  content_cons_congr (Token.unplaced_eq_fixed legible same spelled) rest

/-- Brackets and braces, each with its one spelling, around the same content. -/
theorem content_enclosed (legible : ∀ t ∈ opening :: (ts ++ [closing]), t.legible)
    (opens : opening.kind = first) (closes : closing.kind = last)
    (spelled : first.spelling?.isSome = true ∧ last.spelling?.isSome = true)
    (inside : content ts = content us) :
    content (opening :: (ts ++ [closing])) = content (.fixed first :: (us ++ [.fixed last])) := by
  refine content_fixed (legible _ (by simp)) opens spelled.1 ?_
  refine content_append_congr inside ?_
  exact content_fixed (legible _ (by simp)) closes spelled.2 rfl

end

mutual

/-- The tokens of a phrase have the content of the layout of its tree. -/
theorem Primary.content_eq {d : Nat} {ts : List Token} {node : Node} : Primary d ts node →
    (∀ t ∈ ts, t.legible) → content ts = content node.expressionTokens
  | .literal _, _ => content_cons_congr rfl rfl
  | .identifier _, _ => content_cons_congr rfl rfl
  | .arrayAccess kind opens inside closes, legible => by
    have element := legible_tail legible
    have index := inside.content_eq (legible_inside element)
    rw [expressionTokens_arrayAccess]
    exact content_cons_congr rfl (content_enclosed element opens closes ⟨rfl, rfl⟩ index)
  | .scopeAccess kind dotted member, legible => by
    refine content_cons_congr rfl ?_
    exact content_fixed (legible _ (by simp)) dotted rfl (content_cons_congr rfl rfl)
  | .call head, legible => head.content_eq legible
  | .parenthesized opens inside closes, legible => by
    rw [content_parenthesized opens closes, inside.content_eq (legible_inside legible)]
  | .bracketed opens inside closes, legible => by
    rw [expressionTokens_list]
    exact content_enclosed legible opens closes ⟨rfl, rfl⟩
      (inside.content_eq (legible_inside legible))

theorem CallHead.content_eq {d : Nat} {ts : List Token} {id : Token} {arguments : List Node} :
    CallHead d ts id arguments → (∀ t ∈ ts, t.legible) →
      content ts = content (call id arguments none).expressionTokens
  | .applied kind opens inside closes, legible => by
    have applied := legible_tail legible
    rw [expressionTokens_call]
    exact content_cons_congr rfl (content_enclosed applied opens closes ⟨rfl, rfl⟩
      (inside.content_eq (legible_inside applied)))

theorem Items.content_eq {d : Nat} {ts : List Token} {items : List Node} : Items d ts items →
    (∀ t ∈ ts, t.legible) → content ts = content (Piece.tokens (listLayout items))
  | .nil, _ => rfl
  | .last first, legible => by
    rw [listLayout, moreLayout, List.append_nil, first.content_eq legible]
    rfl
  | .cons first separated others, legible => by
    have parts := List.forall_mem_append.mp legible
    rw [listLayout, Piece.tokens_append]
    refine content_append_congr (first.content_eq parts.1) ?_
    rw [content_skip_kind separated rfl, content_moreLayout,
      others.content_eq (legible_tail parts.2)]

theorem Chain.content_eq {m d : Nat} {ceiling : Option Nat} {ts : List Token} {node : Node} :
    Chain m ceiling d ts node → (∀ t ∈ ts, t.legible) → content ts = content node.expressionTokens
  | .primary operand, legible => operand.content_eq legible
  | .operator before precedence tighter below operand, legible => by
    have formed := (Chain.operator before precedence tighter below operand).formed legible
    have parts := List.forall_mem_append.mp legible
    rw [expressionTokens_binaryOp formed]
    refine content_append_congr ?_ (content_cons_congr rfl ?_)
    · rw [content_grouped, before.content_eq parts.1]
      rfl
    · rw [content_grouped, operand.content_eq (legible_tail parts.2)]
      rfl

theorem Expression.content_eq {m d : Nat} {ts : List Token} {node : Node} :
    Expression m d ts node → (∀ t ∈ ts, t.legible) → content ts = content node.expressionTokens
  | .negation kind inside, legible => by
    rw [expressionTokens_notOp]
    refine content_fixed (legible _ (by simp)) kind rfl ?_
    rw [content_grouped, inside.content_eq (legible_tail legible)]
    rfl
  | .chain operands, legible => operands.content_eq legible

end

mutual

theorem Block.content_eq {d : Nat} {ts : List Token} {body : List Node} (level : Nat) :
    Block d ts body → (∀ t ∈ ts, t.legible) →
      content ts = content (Piece.tokens (Piece.braced level (statementsLayout (level + 1) body)))
  | .braced opens inside closes, legible => by
    rw [Piece.tokens_braced]
    exact content_enclosed legible opens closes ⟨rfl, rfl⟩
      (inside.content_eq (level + 1) (legible_inside legible))

theorem Statements.content_eq {d : Nat} {ts : List Token} {body : List Node} (level : Nat) :
    Statements d ts body → (∀ t ∈ ts, t.legible) →
      content ts = content (Piece.tokens (statementsLayout level body))
  | .nil, _ => rfl
  | .cons first others, legible => by
    have parts := List.forall_mem_append.mp legible
    rw [statementsLayout, Piece.tokens_append]
    exact content_append_congr (first.content_eq level parts.1) (others.content_eq level parts.2)

theorem Statement.content_eq {d : Nat} {ts : List Token} {statement : Node} (level : Nat) :
    Statement d ts statement → (∀ t ∈ ts, t.legible) →
      content ts = content (Piece.tokens (statement.statementLayout level))
  | .assignment _ _ right, legible => by
    rw [tokens_assignment]
    exact content_cons_congr rfl
      (content_cons_congr rfl (right.content_eq (legible_tail (legible_tail legible))))
  | .call head, legible => by
    rw [tokens_call, head.content_eq legible]
  | .callBlock head block, legible => by
    have sides := List.forall_mem_append.mp legible
    rw [tokens_callBlock]
    exact content_append_congr (head.content_eq sides.1) (block.content_eq level sides.2)
  | .condition guarded otherwise, legible => by
    have sides := List.forall_mem_append.mp legible
    rw [tokens_condition]
    exact content_append_congr (guarded.content_eq level sides.1)
      (otherwise.content_eq level sides.2)

theorem Guarded.content_eq {d : Nat} {ts : List Token} {test : Node} {body : List Node}
    (level : Nat) : Guarded d ts test body → (∀ t ∈ ts, t.legible) →
      content ts = content (Piece.tokens (Piece.guarded test.expressionLayout) ++
        Piece.tokens (Piece.braced level (statementsLayout (level + 1) body)))
  | .guarded kind opens inside closes block, legible => by
    have after := legible_tail (legible_tail legible)
    have parts := List.forall_mem_append.mp after
    rw [tokens_guarded_block]
    refine content_fixed (legible _ (by simp)) kind rfl ?_
    refine content_fixed (legible _ (by simp)) opens rfl ?_
    refine content_append_congr (inside.content_eq parts.1) ?_
    exact content_fixed (legible _ (by simp)) closes rfl
      (block.content_eq level (legible_tail parts.2))

theorem Otherwise.content_eq {d : Nat} {ts : List Token} {alternative : Alternative} (level : Nat) :
    Otherwise d ts alternative → (∀ t ∈ ts, t.legible) →
      content ts = content (Piece.tokens (alternativeLayout level alternative))
  | .absent, _ => rfl
  | .elseIf kind guarded otherwise, legible => by
    have sides := List.forall_mem_append.mp (legible_tail legible)
    rw [tokens_elseIf]
    refine content_fixed (legible _ (by simp)) kind rfl ?_
    exact content_append_congr (guarded.content_eq level sides.1)
      (otherwise.content_eq level sides.2)
  | .elseBlock kind block, legible => by
    rw [tokens_elseBlock]
    exact content_fixed (legible _ (by simp)) kind rfl (block.content_eq level (legible_tail legible))

end

end Grammar

end ShiFormat
