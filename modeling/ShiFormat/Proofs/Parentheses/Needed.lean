import ShiFormat.Proofs.Parentheses.Removed

/-!
The grouping parentheses of a layout are needed: whatever tokens derive a tree, they have
parentheses at the places of the pairs in its layout. Without one of these pairs the layout derives
another tree, if any. The exception is an operation on the left that has a negation on its right,
since a negation may be followed by any operator.
-/
namespace ShiFormat
open Grammar

/-- The tokens of a phrase have parentheses at the place of the pair, if they come after tokens with
the content of `before` and are followed by tokens with the content of `after`. -/
def Group.HeldBy (g : Group) (before after : List Piece) (ts : List Token) : Prop :=
  ∃ front opening inside closing back,
    ts = front ++ opening :: (inside ++ closing :: back) ∧
      opening.kind = .leftParen ∧ closing.kind = .rightParen ∧ ParenBalanced inside ∧
      content inside = content (Piece.tokens g.inside) ∧
      content (Piece.tokens before ++ front) = content (Piece.tokens g.before) ∧
      content (back ++ Piece.tokens after) = content (Piece.tokens g.after)

theorem Group.HeldBy.within {g : Group} {before after before' after' : List Piece}
    {ts us : List Token} (held : g.HeldBy before' after' ts) (xs ys : List Token)
    (split : us = xs ++ ts ++ ys)
    (first : content (Piece.tokens before ++ xs) = content (Piece.tokens before'))
    (last : content (ys ++ Piece.tokens after) = content (Piece.tokens after')) :
    g.HeldBy before after us := by
  obtain ⟨front, opening, inside, closing, back, rfl, opens, closes, balanced, same, ahead,
    behind⟩ := held
  refine ⟨xs ++ front, opening, inside, closing, back ++ ys, ?_, opens, closes, balanced, same, ?_,
    ?_⟩
  · simp [split]
  · rw [← ahead, ← List.append_assoc]
    exact content_append_congr first rfl
  · rw [← behind, List.append_assoc]
    exact content_append_congr rfl last

namespace Grammar
open Node Piece

section
variable {xs : List Token} {ps front back : List Piece}

theorem content_ahead (same : content xs = content (Piece.tokens front)) :
    content (Piece.tokens ps ++ xs) = content (Piece.tokens (ps ++ front)) := by
  rw [tokens_append]
  exact content_append_congr rfl same

theorem content_behind (same : content xs = content (Piece.tokens back)) :
    content (xs ++ Piece.tokens ps) = content (Piece.tokens (back ++ ps)) := by
  rw [tokens_append]
  exact content_append_congr same rfl

theorem content_opened (parens : Bool) :
    content (Piece.tokens (ps ++ opened parens)) = content (Piece.tokens ps) := by
  rw [tokens_append, content_append]
  cases parens <;> exact List.append_nil _

theorem content_closed (parens : Bool) :
    content (Piece.tokens (closed parens ++ ps)) = content (Piece.tokens ps) := by
  cases parens <;> rfl

/-- A phrase with tokens before it and a bracket after it, for which pieces are laid out. -/
theorem bracketed_held {g : Group} {before after : List Piece} {ts : List Token} {closing : Token}
    {kind : TokenKind} (held : g.HeldBy (before ++ front) (mark kind :: after) ts)
    (same : content xs = content (Piece.tokens front)) (legible : closing.legible)
    (closes : closing.kind = kind) (spelled : kind.spelling?.isSome = true) :
    g.HeldBy before after (xs ++ ts ++ [closing]) := by
  refine held.within xs [closing] rfl (content_ahead same) ?_
  exact content_fixed legible closes spelled rfl

end

/-- A phrase of an operation or a negation that is no longer one outside of parentheses. -/
theorem Primary.holds_itself {d : Nat} {ts : List Token} {e : Node} (h : Primary d ts e)
    (legible : ∀ t ∈ ts, t.legible) (compound : e.isNegation = true ∨ ∃ p, e.looser p = true)
    (before after : List Piece) (spared : Bool) :
    Group.HeldBy ⟨before, e.expressionLayout, after, spared⟩ before after ts := by
  cases h with
  | @parenthesized opening closing d ts e opens inside closes =>
    have same := inside.content_eq (legible_inside legible)
    exact ⟨[], opening, ts, closing, [], rfl, opens, closes, inside.balanced, same,
      by rw [List.append_nil], rfl⟩
  | _ =>
    rcases compound with negation | ⟨p, looser⟩
    · cases negation
    · cases looser

/-- An operation that binds no tighter than its place asks for is in parentheses. -/
theorem Expression.primary_of_looser {m d : Nat} {ts : List Token} {e : Node}
    (h : Expression m d ts e) (looser : e.looser (m + 1) = true) : ∃ d', Primary d' ts e := by
  cases h with
  | negation _ _ => cases looser
  | chain operands =>
    cases operands with
    | primary operand => exact ⟨_, operand⟩
    | operator _ precedence tighter _ _ =>
      rw [looser_binaryOp, decide_eq_true_eq, TokenKind.rank_of_binary precedence] at looser
      omega

/-- A left operand that binds looser than the operator after it is in parentheses, or it ends with a
negation. -/
theorem Chain.primary_of_needed {m d p : Nat} {ceiling : Option Nat} {ts : List Token} {e : Node}
    (h : Chain m ceiling d ts e) (below : ∀ c ∈ ceiling, p ≤ c) {op : TokenKind}
    (rank : op.rank = p) (needed : e.leftNeedsParens op = true) (plain : e.endsNegated = false) :
    Primary d ts e := by
  cases h with
  | primary operand => exact operand
  | @operator _ _ _ q ceiling op' _ us left right before precedence tighter below' operand =>
    exfalso
    rw [leftNeedsParens_eq, looser_binaryOp, TokenKind.rank_of_binary precedence] at needed
    have looser : q < p := by simpa [isNegation, rank] using needed
    cases negated : startsWith .bang us with
    | false =>
      have bound := below q (by simp [ceilingAfter, negated])
      omega
    | true =>
      cases operand with
      | negation _ _ => cases plain
      | chain operands => simp [operands.not_bang] at negated

mutual

theorem Primary.holds {d : Nat} {ts : List Token} {node : Node} : Primary d ts node →
    (∀ t ∈ ts, t.legible) → ∀ before after, ∀ g ∈ node.expressionGroups before after,
      g.spared = false → g.HeldBy before after ts
  | .literal _, _ | .identifier _, _ | .scopeAccess .., _ => by
    intro before after g member
    cases member
  | @Primary.arrayAccess id opening closing _ _ _ kind opens inside closes, legible => by
    intro before after g member plain
    have element := legible_tail legible
    have held := inside.holds (legible_inside element) _ _ g member plain
    have start : content [id, opening] = content (Piece.tokens [ofToken id, mark .leftBracket]) :=
      content_cons_congr rfl (content_fixed (element _ (by simp)) opens rfl rfl)
    exact bracketed_held held start (element _ (by simp)) closes rfl
  | .call head, legible => head.holds legible
  | @Primary.parenthesized opening closing _ _ _ opens inside closes, legible => by
    intro before after g member plain
    have held := inside.holds (legible_inside legible) _ _ g member plain
    refine held.within [opening] [closing] (by simp) ?_ ?_
    · rw [content_append, content_skip_kind opens rfl]
      exact List.append_nil _
    · exact content_skip_kind closes rfl _
  | @Primary.bracketed opening closing _ _ _ opens inside closes, legible => by
    intro before after g member plain
    have held := inside.holds (legible_inside legible) _ _ g member plain
    have start : content [opening] = content (Piece.tokens [mark .leftBracket]) :=
      content_fixed (legible _ (by simp)) opens rfl rfl
    exact bracketed_held held start (legible _ (by simp)) closes rfl

theorem CallHead.holds {d : Nat} {ts : List Token} {id : Token} {arguments : List Node} :
    CallHead d ts id arguments → (∀ t ∈ ts, t.legible) → ∀ before after,
      ∀ g ∈ (call id arguments none).expressionGroups before after,
      g.spared = false → g.HeldBy before after ts
  | @CallHead.applied _ opening closing _ _ _ kind opens inside closes, legible => by
    intro before after g member plain
    have applied := legible_tail legible
    have held := inside.holds (legible_inside applied) _ _ g member plain
    have start : content [id, opening] = content (Piece.tokens [ofToken id, mark .leftParen]) :=
      content_cons_congr rfl (content_fixed (applied _ (by simp)) opens rfl rfl)
    exact bracketed_held held start (applied _ (by simp)) closes rfl

theorem Items.holds {d : Nat} {ts : List Token} {items : List Node} : Items d ts items →
    (∀ t ∈ ts, t.legible) → ∀ before after, ∀ g ∈ listGroups before after items,
      g.spared = false → g.HeldBy before after ts
  | .nil, _ => by
    intro before after g member
    cases member
  | .last first, legible => by
    intro before after g member
    rw [listGroups, moreGroups, List.append_nil] at member
    exact first.holds legible _ _ g member
  | @Items.cons comma _ _ ts us _ _ first separated others, legible => by
    intro before after g member plain
    have parts := List.forall_mem_append.mp legible
    have inFirst := first.content_eq parts.1
    have inOthers := others.content_eq (legible_tail parts.2)
    rw [listGroups, moreGroups_eq] at member
    rcases List.mem_append.mp member with here | there
    · have held := first.holds parts.1 _ _ g here plain
      refine held.within [] (comma :: us) (by simp) (by simp) (content_behind ?_)
      rw [content_skip_kind separated rfl, inOthers, content_moreLayout]
    · have held := others.holds (legible_tail parts.2) _ _ g there plain
      refine held.within (ts ++ [comma]) [] (by simp) ?_ rfl
      rw [List.append_assoc before]
      refine content_ahead ?_
      rw [tokens_append, content_append, inFirst, content_skip_kind separated rfl, content_append]
      rfl

theorem Chain.holds {m d : Nat} {ceiling : Option Nat} {ts : List Token} {node : Node} :
    Chain m ceiling d ts node → (∀ t ∈ ts, t.legible) → ∀ before after,
      ∀ g ∈ node.expressionGroups before after, g.spared = false → g.HeldBy before after ts
  | .primary operand, legible => operand.holds legible
  | @Chain.operator _ _ _ _ _ op ts us left right first precedence tighter below operand,
      legible => by
    intro before after g member plain
    have formed := (Chain.operator first precedence tighter below operand).formed legible
    have bare := unranked_nil formed
    have parts := List.forall_mem_append.mp legible
    have inLeft := first.content_eq parts.1
    have inRight := operand.content_eq (legible_tail parts.2)
    have rank := TokenKind.rank_of_binary precedence
    have ahead : content (ts ++ [op]) = content (Piece.tokens (leftLayout op left right)) := by
      rw [leftLayout, bare, List.nil_append, tokens_append]
      refine content_append_congr ?_ (content_cons_congr rfl rfl)
      rw [content_grouped, inLeft]
      rfl
    have behind : content (op :: us) =
        content (Piece.tokens (spaced op ++ rightLayout op right)) := by
      rw [tokens_append, tokens_spaced, rightLayout, List.singleton_append]
      refine content_cons_congr rfl ?_
      rw [content_grouped, inRight]
      rfl
    have behindLeft : content (op :: us ++ Piece.tokens after) =
        content (Piece.tokens (spaced op ++ (rightLayout op right ++ after))) := by
      rw [← List.append_assoc]
      exact content_behind behind
    simp only [expressionGroups, bare, List.append_nil, List.mem_append] at member
    rcases member with (own | inner) | (own | inner)
    · obtain ⟨parens, rfl⟩ := Group.mem_around own
      have primary := first.primary_of_needed below rank parens plain
      rw [leftNeedsParens_eq, Bool.or_eq_true] at parens
      have held := primary.holds_itself parts.1 (parens.imp id fun looser => ⟨_, looser⟩) before
        (spaced op ++ (rightLayout op right ++ after)) left.endsNegated
      exact held.within [] (op :: us) (by simp) (by simp) behindLeft
    · have held := first.holds parts.1 _ _ g inner plain
      refine held.within [] (op :: us) (by simp) ?_ ?_
      · rw [content_opened, List.append_nil]
      · rw [content_closed, behindLeft]
    · obtain ⟨parens, rfl⟩ := Group.mem_around own
      rw [rightNeedsParens_eq, rank] at parens
      obtain ⟨_, primary⟩ := operand.primary_of_looser parens
      have held := primary.holds_itself (legible_tail parts.2) (.inr ⟨_, parens⟩)
        (before ++ leftLayout op left right) after false
      exact held.within (ts ++ [op]) [] (by simp) (content_ahead ahead) rfl
    · have held := operand.holds (legible_tail parts.2) _ _ g inner plain
      refine held.within (ts ++ [op]) [] (by simp) ?_ ?_
      · rw [content_opened, content_ahead ahead]
      · rw [content_closed, List.nil_append]

theorem Expression.holds {m d : Nat} {ts : List Token} {node : Node} : Expression m d ts node →
    (∀ t ∈ ts, t.legible) → ∀ before after, ∀ g ∈ node.expressionGroups before after,
      g.spared = false → g.HeldBy before after ts
  | @Expression.negation bang _ _ _ _ kind inside, legible => by
    intro before after g member plain
    have ahead : content [bang] = content (Piece.tokens [mark .bang]) :=
      content_fixed (legible _ (by simp)) kind rfl rfl
    simp only [expressionGroups, List.mem_append] at member
    rcases member with own | inner
    · obtain ⟨parens, rfl⟩ := Group.mem_around own
      rw [notNeedsParens_eq] at parens
      obtain ⟨_, primary⟩ := inside.primary_of_looser parens
      have held := primary.holds_itself (legible_tail legible) (.inr ⟨_, parens⟩)
        (before ++ [mark .bang]) after false
      exact held.within [bang] [] (by simp) (content_ahead ahead) rfl
    · have held := inside.holds (legible_tail legible) _ _ g inner plain
      refine held.within [bang] [] (by simp) ?_ ?_
      · rw [content_opened, content_ahead ahead]
      · rw [content_closed, List.nil_append]
  | .chain operands, legible => operands.holds legible

end

mutual

theorem Block.holds {d : Nat} {ts : List Token} {body : List Node} (level : Nat) :
    Block d ts body → (∀ t ∈ ts, t.legible) → ∀ before after,
      ∀ g ∈ statementsGroups (level + 1) (before ++ blockStart) (blockEnd level ++ after) body,
      g.spared = false → g.HeldBy before after ts
  | @Block.braced opening closing _ _ _ opens inside closes, legible => by
    intro before after g member plain
    have held := inside.holds (level + 1) (legible_inside legible) _ _ g member plain
    refine held.within [opening] [closing] (by simp) (content_ahead ?_) (content_behind ?_)
    · exact content_fixed (legible _ (by simp)) opens rfl rfl
    · exact content_fixed (legible _ (by simp)) closes rfl rfl

theorem Statements.holds {d : Nat} {ts : List Token} {body : List Node} (level : Nat) :
    Statements d ts body → (∀ t ∈ ts, t.legible) → ∀ before after,
      ∀ g ∈ statementsGroups level before after body, g.spared = false → g.HeldBy before after ts
  | .nil, _ => by
    intro before after g member
    cases member
  | @Statements.cons _ _ ts us _ _ first others, legible => by
    intro before after g member plain
    have parts := List.forall_mem_append.mp legible
    rcases List.mem_append.mp member with here | there
    · have held := first.holds level parts.1 _ _ g here plain
      refine held.within [] us (by simp) (by simp) (content_behind ?_)
      exact others.content_eq level parts.2
    · have held := others.holds level parts.2 _ _ g there plain
      exact held.within ts [] (by simp) (content_ahead (first.content_eq level parts.1)) rfl

theorem Statement.holds {d : Nat} {ts : List Token} {statement : Node} (level : Nat) :
    Statement d ts statement → (∀ t ∈ ts, t.legible) → ∀ before after,
      ∀ g ∈ statement.statementGroups level before after, g.spared = false →
        g.HeldBy before after ts
  | @Statement.assignment id op _ _ _ _ _ right, legible => by
    intro before after g member plain
    have held := right.holds (legible_tail (legible_tail legible)) _ _ g member plain
    refine held.within [id, op] [] (by simp) (content_ahead ?_) rfl
    exact content_cons_congr rfl (content_cons_congr rfl rfl)
  | .call head, legible => by
    intro before after g member plain
    have held := head.holds legible _ _ g member plain
    exact held.within [] [] (by simp) (content_ahead rfl) rfl
  | @Statement.callBlock _ _ _ ts us _ body head block, legible => by
    intro before after g member plain
    have parts := List.forall_mem_append.mp legible
    have inHead := head.content_eq parts.1
    have inBlock := block.content_eq level parts.2
    rcases List.mem_append.mp member with here | there
    · have held := head.holds parts.1 _ _ g here plain
      refine held.within [] us (by simp) (content_ahead rfl) ?_
      exact @content_behind us (.newline :: after)
        (.space :: braced level (statementsLayout (level + 1) body)) inBlock
    · have held := block.holds level parts.2 _ _ g there plain
      refine held.within ts [] (by simp) ?_ rfl
      rw [List.append_assoc]
      refine content_ahead ?_
      rw [tokens_append, tokens_space, tokens_nil, List.append_nil]
      exact inHead
  | @Statement.condition _ _ ts us test body alternative guarded otherwise, legible => by
    intro before after g member plain
    have parts := List.forall_mem_append.mp legible
    have inGuarded := guarded.content_eq level parts.1
    rw [statementGroups,
      List.append_cons before (.indent level) (Piece.guarded test.expressionLayout)] at member
    rcases List.mem_append.mp member with here | there
    · have held := guarded.holds level parts.1 _ _ g here plain
      refine held.within [] us (by simp) (content_ahead rfl) ?_
      exact @content_behind us (.newline :: after) _ (otherwise.content_eq level parts.2)
    · have held := otherwise.holds level parts.2 _ _ g there plain
      refine held.within ts [] (by simp) (content_ahead ?_) rfl
      rw [tokens_append]
      exact inGuarded

/-- What holds of the pairs in a test and in the block that it guards. -/
theorem Guarded.holds {d : Nat} {ts : List Token} {test : Node} {body : List Node} (level : Nat) :
    Guarded d ts test body → (∀ t ∈ ts, t.legible) → ∀ before after,
      ∀ g ∈ test.expressionGroups (before ++ guardStart)
          (guardEnd ++ (braced level (statementsLayout (level + 1) body) ++ after)) ++
        statementsGroups (level + 1) (before ++ guarded test.expressionLayout ++ blockStart)
          (blockEnd level ++ after) body,
      g.spared = false → g.HeldBy before after ts
  | @Guarded.guarded word opening closing _ _ ts us _ _ kind opens inside closes block,
      legible => by
    intro before after g member plain
    have later := legible_tail (legible_tail legible)
    have parts := List.forall_mem_append.mp later
    have closer : closing.legible := parts.2 _ List.mem_cons_self
    have start {vs ws : List Token} (same : content vs = content ws) :
        content (word :: opening :: vs) =
          content (.fixed .ifWord :: .fixed .leftParen :: ws) := by
      refine content_fixed (legible _ (by simp)) kind rfl ?_
      exact content_fixed (legible _ (by simp)) opens rfl same
    rcases List.mem_append.mp member with inTest | inBody
    · have held := inside.holds parts.1 _ _ g inTest plain
      refine held.within [word, opening] (closing :: us) (by simp) (content_ahead (start rfl)) ?_
      rw [← List.append_assoc]
      refine content_behind ?_
      rw [tokens_append]
      exact content_fixed closer closes rfl (block.content_eq level (legible_tail parts.2))
    · have held := block.holds level (legible_tail parts.2) _ _ g inBody plain
      refine held.within (word :: opening :: (ts ++ [closing])) [] (by simp) (content_ahead ?_) rfl
      rw [tokens_guarded]
      refine start (content_append_congr (inside.content_eq parts.1) ?_)
      exact content_fixed closer closes rfl rfl

theorem Otherwise.holds {d : Nat} {ts : List Token} {alternative : Alternative} (level : Nat) :
    Otherwise d ts alternative → (∀ t ∈ ts, t.legible) → ∀ before after,
      ∀ g ∈ alternativeGroups level before after alternative,
      g.spared = false → g.HeldBy before after ts
  | .absent, _ => by
    intro before after g member
    cases member
  | @Otherwise.elseIf word _ _ ts us _ _ _ kind guarded otherwise, legible => by
    intro before after g member plain
    have sides := List.forall_mem_append.mp (legible_tail legible)
    have start : content [word] = content (Piece.tokens elseStart) :=
      content_fixed (legible _ (by simp)) kind rfl rfl
    rw [alternativeGroups, ← List.append_assoc before elseStart (Piece.guarded _)] at member
    rcases List.mem_append.mp member with here | there
    · have held := guarded.holds level sides.1 _ _ g here plain
      refine held.within [word] us (by simp) (content_ahead start) (content_behind ?_)
      exact otherwise.content_eq level sides.2
    · have held := otherwise.holds level sides.2 _ _ g there plain
      refine held.within (word :: ts) [] (by simp) (content_ahead ?_) rfl
      rw [List.append_assoc elseStart, tokens_append, tokens_append]
      exact content_append_congr start (guarded.content_eq level sides.1)
  | @Otherwise.elseBlock word _ _ _ kind block, legible => by
    intro before after g member plain
    have held := block.holds level (legible_tail legible) _ _ g member plain
    refine held.within [word] [] (by simp) (content_ahead ?_) rfl
    exact content_fixed (legible _ (by simp)) kind rfl rfl

end

end Grammar

/-- The tokens of the layout without the pair do not have parentheses at its place. -/
theorem Group.Sound.not_held {w : Nat} {g : Group} (sound : g.Sound w) {ts : List Token}
    (same : ts.map Token.unplaced = Piece.tokens g.removed) : ¬ g.HeldBy [] [] ts := by
  rintro ⟨front, opening, inside, closing, back, rfl, opens, closes, balanced, within, ahead,
    behind⟩
  rw [Piece.tokens_nil, List.nil_append] at ahead
  rw [Piece.tokens_nil, List.append_nil] at behind
  rw [← content_unplaced] at within ahead behind
  obtain ⟨left, hinge, right, hinged, solid, balancedLeft, balancedRight⟩ := sound.hinge
  rw [hinged] at within
  have cut : Piece.tokens g.before ++ (left ++ hinge :: right) ++ Piece.tokens g.after =
      front.map Token.unplaced ++ opening.unplaced :: (inside.map Token.unplaced ++
        closing.unplaced :: back.map Token.unplaced) := by
    rw [← hinged, ← Piece.tokens_append, ← Piece.tokens_append, ← Group.removed, ← same]
    simp
  rcases sound.joined with ⟨op, rest, after, joins⟩ | ⟨rest, op, before, joins⟩
  · rw [after] at cut behind
    exact no_pair_before_operator cut ahead within behind solid joins opens closes balancedRight
      balanced.unplaced
  · rw [before] at cut ahead
    rw [List.append_assoc rest, List.singleton_append] at cut
    exact no_pair_after_operator cut ahead within solid joins opens balancedLeft balanced.unplaced

/-- The text of a layout without the pair. -/
def Group.removedText (width : Nat) (g : Group) : String :=
  String.ofList (Piece.written width g.removed)

theorem Group.Sound.keptTokens_removed {width : Nat} {g : Group} (sound : g.Sound width)
    (kept : ∀ x ∈ Piece.tokens g.removed, Parser.isKept x) (path : Path) :
    (keptTokens path (g.removedText width)).map Token.unplaced = Piece.tokens g.removed := by
  have read := sound.removed [] .nil
  rw [List.append_nil, List.append_nil] at read
  obtain ⟨placed, finish, run, values⟩ := read path (Cursor.atStart _) rfl
  have tokenized : tokenize path (g.removedText width) = .ok (placed ++ [.endOfInput finish]) := by
    rw [tokenize, Group.removedText, String.toList_ofList]
    exact run
  rw [keptTokens_of_read tokenized, filter_before_end ?_ rfl, values]
  intro x member
  have solid := kept x.unplaced (values ▸ List.mem_map_of_mem member)
  exact solid

namespace Node
variable {t : Node} {g : Group}

theorem groups_sound (formed : t.wellFormed) (width : Nat) : ∀ g ∈ t.groups, g.Sound width := by
  obtain ⟨body, rfl, formed⟩ := wellFormed_iff.mp formed
  exact statements_pairs 0 body formed [] [] (fun _ => .nil) .nil

theorem layout_of_mem_groups (member : g ∈ t.groups) :
    t.layout = g.before ++ .openGroup :: g.inside ++ .closeGroup :: g.after := by
  have stands := t.layout_covers.stands g member
  rwa [List.nil_append, List.append_nil] at stands

theorem removed_kept (formed : t.wellFormed) (member : g ∈ t.groups) :
    ∀ x ∈ Piece.tokens g.removed, Parser.isKept x := by
  have stands := layout_of_mem_groups member
  obtain ⟨body, rfl, formed⟩ := wellFormed_iff.mp formed
  have opening (ps : List Piece) :
      Piece.tokens (.openGroup :: ps) = .fixed .leftParen :: Piece.tokens ps := rfl
  have closing (ps : List Piece) :
      Piece.tokens (.closeGroup :: ps) = .fixed .rightParen :: Piece.tokens ps := rfl
  intro x inside
  refine (statements_derive 0 body formed).kept x ?_
  rw [layout] at stands
  simp only [Group.removed, Piece.tokens_append, List.mem_append] at inside
  rcases inside with (before | within) | after
  · simp [stands, before]
  · simp [stands, opening, within]
  · simp [stands, opening, closing, after]

/-- The pair in the text. -/
theorem format_of_mem_groups (formed : t.wellFormed) (member : g ∈ t.groups) (width : Nat) :
    (t.format width).text = String.ofList (Piece.written width g.before ++
      '(' :: Piece.written width g.inside ++ ')' :: Piece.written width g.after) := by
  have stands := layout_of_mem_groups member
  obtain ⟨body, rfl, formed⟩ := wellFormed_iff.mp formed
  have whole := statements_whole 0 body formed
  rw [format, Rendering.ofLayout, layout, Piece.visible_of_whole whole]
  rw [layout] at stands
  simp [stands, Piece.written, Piece.text]

end Node

/-- The pairs of a well-formed tree account for all grouping parentheses in its text. With one of
them deleted, unless it is around a left operand that ends with a negation, the text is refused or
is that of a tree that is not equivalent. -/
theorem parentheses_needed (t : Node) (formed : t.wellFormed) (width : Nat) (path : Path) :
    (∀ front back, t.layout = front ++ .openGroup :: back → ∃ g ∈ t.groups, g.before = front) ∧
      ∀ g ∈ t.groups,
        t.layout = g.before ++ .openGroup :: g.inside ++ .closeGroup :: g.after ∧
          (t.format width).text = String.ofList (Piece.written width g.before ++
            '(' :: Piece.written width g.inside ++ ')' :: Piece.written width g.after) ∧
          (g.spared = false → ∀ again, parse path (g.removedText width) = .ok again →
            t.equivalent again = false) := by
  refine ⟨t.layout_covers.all, ?_⟩
  intro g member
  refine ⟨Node.layout_of_mem_groups member, Node.format_of_mem_groups formed member width, ?_⟩
  intro plain again accepted
  refine Bool.eq_false_iff.mpr fun same => ?_
  have sound := Node.groups_sound formed width g member
  have read := sound.keptTokens_removed (Node.removed_kept formed member) path
  have legible := keptTokens_legible path (g.removedText width)
  obtain ⟨d, _, body, derived, rfl⟩ := derived_of_parse accepted
  have unplaced := (t.equivalent_iff_unplaced _).mp same
  obtain ⟨body', rfl, _⟩ := Node.wellFormed_iff.mp formed
  rw [Node.mapTokens, Node.mapTokens] at unplaced
  have groups : (Node.statementList body').groups = Node.statementsGroups 0 [] [] body := by
    rw [← Node.statementsGroups_unplaced, ← Node.statementList.inj unplaced,
      Node.statementsGroups_unplaced, Node.groups]
  rw [groups] at member
  exact sound.not_held read (derived.holds 0 legible [] [] g member plain)

/-- `a = (!b) && !(c || d)` without the second pair. -/
theorem parentheses_needed_negation :
    let path : Path := ⟨"BUILD.shi"⟩
    let token kind value : Token := ⟨kind, value, .unknown⟩
    let name value := Node.identifier (token .identifier value)
    let t := Node.statementList [.assignment (token .equal "=") (name "a")
      (.binaryOp (token .andAnd "&&") (.notOp (name "b"))
        (.notOp (.binaryOp (token .orOr "||") (name "c") (name "d"))))]
    t.wellFormed ∧ t.groups.map (Group.removedText 2) =
        ["a = !b && !(c || d)\n", "a = (!b) && !c || d\n"] ∧
      ∃ again, parse path "a = (!b) && !c || d\n" = .ok again ∧ t.equivalent again = false := by
  intro path token name t
  have formed : t.wellFormed := by decide
  have texts : t.groups.map (Group.removedText 2) =
      ["a = !b && !(c || d)\n", "a = (!b) && !c || d\n"] := by decide +kernel
  obtain ⟨again, accepted, _⟩ :=
    accepted_of_check path "a = (!b) && !c || d\n" (fun _ => true) (by decide +kernel)
  have plain : t.groups.all fun g => g.spared = false := by decide +kernel
  have listed : "a = (!b) && !c || d\n" ∈ t.groups.map (Group.removedText 2) := by simp [texts]
  obtain ⟨g, member, removed⟩ := List.mem_map.mp listed
  have needed := ((parentheses_needed t formed 2 path).2 g member).2.2
  rw [removed] at needed
  have spared := of_decide_eq_true (List.all_eq_true.mp plain g member)
  exact ⟨formed, texts, again, accepted, needed spared again accepted⟩

/-- `x = (a == !b) + c` is the same tree without its only pair, which is around a left operand that
ends with a negation. -/
example :
    let token kind value : Token := ⟨kind, value, .unknown⟩
    let name value := Node.identifier (token .identifier value)
    let t := Node.statementList [.assignment (token .equal "=") (name "x")
      (.binaryOp (token .plus "+") (.binaryOp (token .equalEqual "==") (name "a")
        (.notOp (name "b"))) (name "c"))]
    t.groups.map Group.spared = [true] ∧
      (parse ⟨"BUILD.shi"⟩ "x = a == !b + c\n").toOption.any t.equivalent = true := by
  decide +kernel

end ShiFormat
