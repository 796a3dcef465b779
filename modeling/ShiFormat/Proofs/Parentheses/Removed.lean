import ShiFormat.Proofs.Parentheses.Balance
import ShiFormat.Proofs.Parentheses.Groups

/-!
What a layout is like with one pair of its grouping parentheses left out: its text still reads as
its tokens, and the operand that was in them can be taken apart at its operator.
-/
namespace ShiFormat
open Grammar

/-- The text begins with a character that does not carry on a negation. -/
def Firm (text : List Char) : Prop := ∃ c more, text = c :: more ∧ c ≠ '='

theorem Firm.append {text : List Char} (firm : Firm text) (more : List Char) :
    Firm (text ++ more) := by
  obtain ⟨c, rest, rfl, other⟩ := firm
  exact ⟨c, rest ++ more, rfl, other⟩

namespace Piece
variable {w : Nat} {before after front back : List Piece}

/-- The pieces can be read before an operand. -/
def Introduces (w : Nat) (ps : List Piece) : Prop := ∀ text, Firm text → Readable w ps text

/-- The pieces can be read after an operand, with nothing after them. -/
def Concludes (w : Nat) (ps : List Piece) : Prop := Loose (written w ps) ∧ Readable w ps []

/-- The pieces can be read before an operand, and can themselves start one. -/
def Fronts (w : Nat) (ps : List Piece) : Prop :=
  ∀ text, Firm text → Readable w ps text ∧ Firm (written w ps ++ text)

/-- The pieces can be read after an operand, and can themselves end one. -/
def Backs (w : Nat) (ps : List Piece) : Prop :=
  ∀ text, Loose text → Readable w ps text ∧ Loose (written w ps ++ text)

theorem Introduces.append (lead : Introduces w before) (fronts : Fronts w front) :
    Introduces w (before ++ front) := by
  intro text firm
  obtain ⟨read, starts⟩ := fronts text firm
  exact .append (lead _ starts) read

theorem Concludes.behind (trail : Concludes w after) (backs : Backs w back) :
    Concludes w (back ++ after) := by
  obtain ⟨read, loose⟩ := backs (written w after) trail.1
  refine ⟨by rwa [written_append], .append ?_ trail.2⟩
  rwa [List.append_nil]

theorem Concludes.marked {kind : TokenKind} (trail : Concludes w after)
    (legible : (Token.fixed kind).legible) (closed : ∀ c, Lexeme.goesOn kind c = false)
    (loose : ∀ text, Loose (written w [mark kind] ++ text)) : Concludes w (mark kind :: after) := by
  have backs : Backs w [mark kind] := fun text _ => ⟨.closed legible closed, loose text⟩
  exact trail.behind backs

theorem fronts_marked {kind : TokenKind} (legible : (Token.fixed kind).legible)
    (closed : ∀ c, Lexeme.goesOn kind c = false)
    (firm : ∀ text, Firm (written w [mark kind] ++ text)) : Fronts w [mark kind] :=
  fun text _ => ⟨.closed legible closed, firm text⟩

theorem fronts_opened (parens : Bool) : Fronts w (opened parens) := by
  intro text firm
  cases parens with
  | true => exact ⟨.openGroup, '(', _, rfl, by decide⟩
  | false => exact ⟨.nil, firm⟩

theorem backs_closed (parens : Bool) : Backs w (closed parens) := by
  intro text loose
  cases parens with
  | true => exact ⟨.closeGroup, loose_cons rfl _⟩
  | false => exact ⟨.nil, loose⟩

end Piece

open Piece

/-- A pair whose operand is part of an operation or a negation, in a layout that can be read without
the pair. -/
structure Group.Sound (w : Nat) (g : Group) : Prop where
  leads : Introduces w g.before
  trails : Concludes w g.after
  firm : Firm (Piece.written w g.inside)
  inside : ∀ text, Loose text → Readable w g.inside text
  hinge : ∃ left op right, Piece.tokens g.inside = left ++ op :: right ∧
    op.kind.isGrouping = false ∧ ParenBalanced left ∧ ParenBalanced right
  joined : (∃ op rest, Piece.tokens g.after = op :: rest ∧ op.kind.isGrouping = false) ∨
    ∃ rest op, Piece.tokens g.before = rest ++ [op] ∧ op.kind.isGrouping = false

theorem Group.Sound.removed {w : Nat} {g : Group} (sound : g.Sound w) :
    Readable w g.removed [] := by
  have inside := sound.inside (Piece.written w g.after) sound.trails.1
  refine .append (.append (sound.leads _ (sound.firm.append _)) ?_) sound.trails.2
  rwa [List.append_nil]

theorem Group.mem_around {parens spared : Bool} {before inside after : List Piece} {g : Group}
    (member : g ∈ Group.around parens spared before inside after) :
    parens = true ∧ g = ⟨before, inside, after, spared⟩ := by
  cases parens with
  | true => exact ⟨rfl, List.mem_singleton.mp member⟩
  | false => cases member

namespace Node
variable {w : Nat}

theorem fronts_named {id : Token} {kind : TokenKind} (named : id.spellsName)
    (legible : (Token.fixed kind).legible) (closed : ∀ c, Lexeme.goesOn kind c = false)
    (loose : ∀ text, Loose (Piece.written w [mark kind] ++ text)) :
    Fronts w [ofToken id, mark kind] := by
  intro text _
  refine ⟨.cons (name_readable named (loose text)) (.closed legible closed), ?_⟩
  exact Firm.append (name_starts named _) text

theorem solid_of_operator {op : Token} (binary : op.spellsOperator) :
    op.unplaced.kind.isGrouping = false := by
  simp only [Token.spellsOperator, Bool.and_eq_true] at binary
  rw [Token.unplaced_kind]
  cases kind : op.kind <;> simp_all [TokenKind.binaryPrecedence?, TokenKind.isGrouping]

theorem grouped_balanced {e : Node} (formed : e.formsExpression) (parens : Bool) :
    ParenBalanced (Piece.tokens (grouped parens e.expressionLayout)) := by
  have inside := ((derives e formed).expression 0 (not_looser_of_formed formed)).balanced
  cases parens with
  | true =>
    rw [tokens_grouped]
    exact inside.parenthesized rfl rfl
  | false => exact inside

/-- The tokens of an operation or a negation, with its operator among them. -/
theorem hinge_of_formed {e : Node} (formed : e.formsExpression)
    (compound : e.isNegation = true ∨ ∃ p, e.looser p = true) :
    ∃ left op right, e.expressionTokens = left ++ op :: right ∧ op.kind.isGrouping = false ∧
      ParenBalanced left ∧ ParenBalanced right := by
  cases e with
  | binaryOp op left right =>
    have same := expressionTokens_binaryOp formed
    simp only [formsExpression, Bool.and_eq_true] at formed
    exact ⟨_, _, _, same, solid_of_operator formed.1.1, grouped_balanced formed.1.2 _,
      grouped_balanced formed.2 _⟩
  | notOp operand =>
    have inside : operand.formsExpression := formed
    exact ⟨[], _, _, expressionTokens_notOp operand, rfl, .nil, grouped_balanced inside _⟩
  | _ =>
    rcases compound with negation | ⟨p, looser⟩
    · cases negation
    · cases looser

theorem sound_of_formed {e : Node} (formed : e.formsExpression)
    (compound : e.isNegation = true ∨ ∃ p, e.looser p = true) {before after : List Piece}
    {spared : Bool} (lead : Introduces w before) (trail : Concludes w after)
    (joined : (∃ op rest, Piece.tokens after = op :: rest ∧ op.kind.isGrouping = false) ∨
      ∃ rest op, Piece.tokens before = rest ++ [op] ∧ op.kind.isGrouping = false) :
    Group.Sound w ⟨before, e.expressionLayout, after, spared⟩ where
  leads := lead
  trails := trail
  firm := expression_starts e formed
  inside := expression_readable e formed
  hinge := hinge_of_formed formed compound
  joined := joined

theorem fronts_leftLayout {op : Token} {left right : Node}
    (formed : (binaryOp op left right).formsExpression) : Fronts w (leftLayout op left right) := by
  have bare := unranked_nil formed
  simp only [formsExpression, Bool.and_eq_true] at formed
  have starts :
      Firm (Piece.written w (grouped (left.leftNeedsParens op.kind) left.expressionLayout)) :=
    grouped_starts (left.leftNeedsParens op.kind) (expression_starts left formed.1.2)
  intro text _
  rw [leftLayout, bare, List.nil_append]
  refine ⟨.append (.grouped (loose_cons rfl _) (expression_readable left formed.1.2)) ?_, ?_⟩
  · exact .spaced (Token.spellsOperator.legible formed.1.1) (not_comment formed.1.1)
  · rw [written_append]
    exact Firm.append (Firm.append starts _) text

theorem backs_rightLayout {op : Token} {right : Node} (binary : op.spellsOperator)
    (formed : right.formsExpression) : Backs w (spaced op ++ rightLayout op right) := by
  intro text loose
  refine ⟨.append (.spaced (Token.spellsOperator.legible binary) (not_comment binary)) ?_, loose_cons rfl _⟩
  exact .grouped loose (expression_readable right formed)

theorem backs_moreLayout {items : List Node} (formed : allExpressions items) :
    Backs w (moreLayout items) := by
  intro text loose
  refine ⟨more_readable items formed text loose, ?_⟩
  cases items with
  | nil => exact loose
  | cons item more => exact loose_cons rfl _

mutual

theorem expression_pairs : (e : Node) → e.formsExpression → ∀ before after, Introduces w before →
    Concludes w after → ∀ g ∈ e.expressionGroups before after, g.Sound w
  | .arrayAccess id index, formed => by
    intro before after lead trail
    simp only [formsExpression, Bool.and_eq_true] at formed
    refine expression_pairs index formed.2 _ _ (lead.append ?_) (trail.marked rfl (fun _ => rfl) ?_)
    · exact fronts_named formed.1 rfl (fun _ => rfl) fun _ => loose_cons rfl _
    · exact fun _ => loose_cons rfl _
  | .binaryOp op left right, formed => by
    intro before after lead trail
    have bare := unranked_nil formed
    have onRight := lead.append (fronts_leftLayout formed)
    have operator : Piece.tokens (leftLayout op left right) =
        Piece.tokens (grouped (left.leftNeedsParens op.kind) left.expressionLayout) ++
          [op.unplaced] := by simp [leftLayout, bare]
    simp only [formsExpression, Bool.and_eq_true] at formed
    have onLeft : Concludes w (spaced op ++ (rightLayout op right ++ after)) := by
      rw [← List.append_assoc]
      exact trail.behind (backs_rightLayout formed.1.1 formed.2)
    intro g member
    simp only [expressionGroups, bare, List.append_nil, List.mem_append] at member
    rcases member with (own | inner) | (own | inner)
    · obtain ⟨parens, rfl⟩ := Group.mem_around own
      rw [leftNeedsParens_eq, Bool.or_eq_true] at parens
      refine sound_of_formed formed.1.2 (parens.imp id fun looser => ⟨_, looser⟩) lead onLeft ?_
      exact .inl ⟨op.unplaced, _, rfl, solid_of_operator formed.1.1⟩
    · exact expression_pairs left formed.1.2 _ _ (lead.append (fronts_opened _))
        (onLeft.behind (backs_closed _)) g inner
    · obtain ⟨parens, rfl⟩ := Group.mem_around own
      rw [rightNeedsParens_eq] at parens
      refine sound_of_formed formed.2 (.inr ⟨_, parens⟩) onRight trail ?_
      rw [tokens_append, operator, ← List.append_assoc]
      exact .inr ⟨_, op.unplaced, rfl, solid_of_operator formed.1.1⟩
    · exact expression_pairs right formed.2 _ _ (onRight.append (fronts_opened _))
        (trail.behind (backs_closed _)) g inner
  | .call id arguments none, formed => by
    intro before after lead trail
    simp only [formsExpression, Bool.and_eq_true] at formed
    refine list_pairs arguments formed.2 _ _ (lead.append ?_) (trail.marked rfl (fun _ => rfl) ?_)
    · exact fronts_named formed.1 rfl (fun _ => rfl) fun _ => loose_cons rfl _
    · exact fun _ => loose_cons rfl _
  | .expressionList items, formed => by
    intro before after lead trail
    refine list_pairs items formed _ _ (lead.append ?_) (trail.marked rfl (fun _ => rfl) ?_)
    · exact fronts_marked rfl (fun _ => rfl) fun _ => ⟨'[', _, rfl, by decide⟩
    · exact fun _ => loose_cons rfl _
  | .notOp operand, formed => by
    intro before after lead trail
    have inside : operand.formsExpression := formed
    have fronts : Fronts w [mark .bang] := fun text firm =>
      ⟨.mark rfl (ends_bang firm), '!', _, rfl, by decide⟩
    intro g member
    simp only [expressionGroups, List.mem_append] at member
    rcases member with own | inner
    · obtain ⟨parens, rfl⟩ := Group.mem_around own
      rw [notNeedsParens_eq] at parens
      refine sound_of_formed inside (.inr ⟨_, parens⟩) (lead.append fronts) trail ?_
      exact .inr ⟨_, .fixed .bang, tokens_append _ _, rfl⟩
    · exact expression_pairs operand inside _ _ ((lead.append fronts).append (fronts_opened _))
        (trail.behind (backs_closed _)) g inner
  | .identifier _, _ | .literal _, _ | .scopeAccess .., _ => by
    intro before after _ _ g member
    cases member
  | .call _ _ (some _), formed | .assignment .., formed | .condition .., formed
  | .statementList _, formed => by simp [formsExpression] at formed

theorem list_pairs : (items : List Node) → allExpressions items → ∀ before after,
    Introduces w before → Concludes w after → ∀ g ∈ listGroups before after items, g.Sound w
  | [], _ => by
    intro before after _ _ g member
    cases member
  | first :: more, formed => by
    intro before after lead trail g member
    simp only [allExpressions, Bool.and_eq_true] at formed
    rw [listGroups, moreGroups_eq] at member
    rcases List.mem_append.mp member with here | there
    · have others := trail.behind (backs_moreLayout formed.2)
      exact expression_pairs first formed.1 _ _ lead others g here
    · refine list_pairs more formed.2 _ _ (fun text _ => ?_) trail g there
      have starts : Firm (Piece.written w first.expressionLayout) :=
        expression_starts first formed.1
      have comma : Readable w [mark .comma, .space] text :=
        .cons (.closed rfl fun _ => rfl) .space
      refine .append (.append (lead _ (starts.append _)) ?_) comma
      exact expression_readable first formed.1 _ (loose_cons rfl _)

end

section
variable {level : Nat} {text : List Char} {after : List Piece}

theorem blockStart_readable : Readable w blockStart text :=
  .cons (.closed rfl fun _ => rfl) .newline

theorem blockEnd_readable : Readable w (blockEnd level) text :=
  .cons (.indent level) (.closed rfl fun _ => rfl)

theorem guardStart_readable : Readable w guardStart text := by
  refine .cons (.mark rfl ?_) (.cons .space (.closed rfl fun _ => rfl))
  exact ends_before_blank (by decide) _

theorem guardEnd_readable : Readable w guardEnd text := .cons (.closed rfl fun _ => rfl) .space

theorem elseStart_readable : Readable w elseStart text := by
  refine .cons .space (.cons (.mark rfl ?_) .space)
  exact ends_before_blank (by decide) _

theorem concludes_newline (trail : Readable w after []) : Concludes w (.newline :: after) :=
  ⟨loose_cons rfl _, .cons .newline trail⟩

/-- The pairs in a test and in the block that it guards, if those in the block are sound. -/
theorem guarded_pairs {test : Node} {body : List Node} (formed : test.formsExpression)
    (block : allStatements body)
    (inBlock : ∀ before after, (∀ text, Readable w before text) → Readable w after [] →
      ∀ g ∈ statementsGroups (level + 1) before after body, g.Sound w)
    {before : List Piece} (lead : ∀ text, Readable w before text) (trail : Readable w after []) :
    ∀ g ∈ test.expressionGroups (before ++ guardStart)
        (guardEnd ++ (braced level (statementsLayout (level + 1) body) ++ after)) ++
      statementsGroups (level + 1) (before ++ guarded test.expressionLayout ++ blockStart)
        (blockEnd level ++ after) body, g.Sound w := by
  intro g member
  have lines (text : List Char) : Readable w (statementsLayout (level + 1) body) text :=
    statements_readable (level + 1) body block text
  rcases List.mem_append.mp member with inTest | inBody
  · refine expression_pairs test formed _ _ (fun text _ => ?_) ?_ g inTest
    · exact .append (lead _) guardStart_readable
    · exact ⟨loose_cons rfl _, .append guardEnd_readable (.append (.braced lines) trail)⟩
  · refine inBlock _ _ (fun text => ?_) (.append blockEnd_readable trail) g inBody
    refine .append (.append (lead _) (.guarded ?_)) blockStart_readable
    exact expression_readable test formed

end

mutual

theorem statement_pairs (level : Nat) : (statement : Node) → statement.formsStatement →
    ∀ before after, (∀ text, Readable w before text) → Readable w after [] →
    ∀ g ∈ statement.statementGroups level before after, g.Sound w
  | .assignment op target value, formed => by
    intro before after lead trail g member
    simp only [formsStatement, Bool.and_eq_true] at formed
    obtain ⟨id, rfl, named⟩ := target_formed formed.1.1
    have other : op.kind ≠ .comment := by
      intro comment
      have assigns := kind_of_spells formed.1.2
      simp [comment, TokenKind.assignmentOperators] at assigns
    refine expression_pairs value formed.2 _ _ (fun text _ => ?_) (concludes_newline trail) g member
    refine .append (lead _) (.append (.cons (.indent level) ?_) ?_)
    · exact name_readable named (loose_cons rfl _)
    · exact .spaced (Token.spells.legible formed.1.2) other
  | .call id arguments none, formed => by
    intro before after lead trail
    refine expression_pairs (.call id arguments none) formed _ _ (fun text _ => ?_)
      (concludes_newline trail)
    exact .append (lead _) (.indent level)
  | .call id arguments (some body), formed => by
    intro before after lead trail g member
    simp only [formsStatement, Bool.and_eq_true] at formed
    have call : (call id arguments none).formsExpression := by
      simp [formsExpression, formed.1.1, formed.1.2]
    have lines (text : List Char) : Readable w (statementsLayout (level + 1) body) text :=
      statements_readable (level + 1) body formed.2 text
    rcases List.mem_append.mp member with head | inner
    · refine expression_pairs (.call id arguments none) call _ _ (fun text _ => ?_) ?_ g head
      · exact .append (lead _) (.indent level)
      · exact ⟨loose_cons rfl _, .append (.cons .space (.braced lines)) (.cons .newline trail)⟩
    · refine statements_pairs (level + 1) body formed.2 _ _ (fun text => ?_) ?_ g inner
      · refine .append (.append (.append (lead _) (.cons (.indent level) ?_)) .space)
          blockStart_readable
        exact expression_readable (.call id arguments none) call _ (loose_cons rfl _)
      · exact .append blockEnd_readable (.cons .newline trail)
  | .condition test body alternative, formed => by
    intro before after lead trail g member
    simp only [formsStatement, Bool.and_eq_true] at formed
    have line (text : List Char) :
        Readable w (.indent level :: guarded test.expressionLayout) text :=
      .cons (.indent level) (.guarded (expression_readable test formed.1.1))
    have rest : Readable w (alternativeLayout level alternative ++ .newline :: after) [] :=
      .append (alternative_readable level alternative formed.2 _) (.cons .newline trail)
    rw [statementGroups,
      List.append_cons before (.indent level) (Piece.guarded test.expressionLayout)] at member
    rcases List.mem_append.mp member with here | there
    · exact guarded_pairs formed.1.1 formed.1.2 (statements_pairs (level + 1) body formed.1.2)
        (fun _ => .append (lead _) (.indent level)) rest g here
    · refine alternative_pairs level alternative formed.2 _ _ (fun text => ?_)
        (.cons .newline trail) g there
      refine .append (lead _) (.append (line _) (.braced ?_))
      exact statements_readable (level + 1) body formed.1.2
  | .arrayAccess .., formed | .binaryOp .., formed | .expressionList .., formed
  | .identifier _, formed | .literal _, formed | .notOp _, formed | .scopeAccess .., formed
  | .statementList _, formed => by simp [formsStatement] at formed

theorem alternative_pairs (level : Nat) : (alternative : Alternative) → alternative.isFormed →
    ∀ before after, (∀ text, Readable w before text) → Readable w after [] →
    ∀ g ∈ alternativeGroups level before after alternative, g.Sound w
  | .absent, _ => by
    intro before after _ _ g member
    cases member
  | .elseIf test body alternative, formed => by
    intro before after lead trail g member
    simp only [Alternative.isFormed, Bool.and_eq_true] at formed
    have line (text : List Char) :
        Readable w (elseStart ++ guarded test.expressionLayout) text :=
      .append elseStart_readable (.guarded (expression_readable test formed.1.1))
    have rest : Readable w (alternativeLayout level alternative ++ after) [] :=
      .append (alternative_readable level alternative formed.2 _) trail
    rw [alternativeGroups, ← List.append_assoc before elseStart (Piece.guarded _)] at member
    rcases List.mem_append.mp member with here | there
    · exact guarded_pairs formed.1.1 formed.1.2 (statements_pairs (level + 1) body formed.1.2)
        (fun _ => .append (lead _) elseStart_readable) rest g here
    · refine alternative_pairs level alternative formed.2 _ _ (fun text => ?_) trail g there
      refine .append (lead _) (.append (line _) (.braced ?_))
      exact statements_readable (level + 1) body formed.1.2
  | .elseBlock body, formed => by
    intro before after lead trail
    refine statements_pairs (level + 1) body formed _ _ (fun text => ?_) ?_
    · exact .append (.append (lead _) elseStart_readable) blockStart_readable
    · exact .append blockEnd_readable trail

theorem statements_pairs (level : Nat) : (body : List Node) → allStatements body →
    ∀ before after, (∀ text, Readable w before text) → Readable w after [] →
    ∀ g ∈ statementsGroups level before after body, g.Sound w
  | [], _ => by
    intro before after _ _ g member
    cases member
  | first :: more, formed => by
    intro before after lead trail g member
    simp only [allStatements, Bool.and_eq_true] at formed
    rcases List.mem_append.mp member with here | there
    · refine statement_pairs level first formed.1 _ _ lead ?_ g here
      exact .append (statements_readable level more formed.2 _) trail
    · refine statements_pairs level more formed.2 _ _ (fun text => ?_) trail g there
      exact .append (lead _) (statement_readable level first formed.1 _)

end

end Node
end ShiFormat
