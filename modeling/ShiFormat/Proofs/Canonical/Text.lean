import ShiFormat.Rendering
import ShiFormat.Proofs.Canonical.Derivation

/-!
The text of a layout reads back as the tokens of the layout: no two tokens of it run together, and
the blanks between them do not count.
-/
namespace ShiFormat

/-- The text does not begin with a character that could carry on a word or an integer. -/
def Loose (text : List Char) : Prop := ∀ c ∈ text.head?, Lexeme.continuesWord c = false

theorem Loose.ends {kind : TokenKind} {text : List Char} (loose : Loose text)
    (operand : kind = .identifier ∨ kind ∈ TokenKind.literals) : Lexeme.Ends kind text := by
  intro c head
  have stop := loose c head
  have digit : c.isDigit = false := by
    unfold Lexeme.continuesWord Char.isAlphanum at stop
    simp_all
  rw [TokenKind.mem_literals] at operand
  rcases operand with rfl | rfl | rfl | rfl | rfl <;> simp [Lexeme.goesOn, stop, digit]

theorem loose_cons {c : Char} (stop : Lexeme.continuesWord c = false) (text : List Char) :
    Loose (c :: text) := by
  intro x head
  cases Option.some.inj head
  exact stop

theorem ends_of_spellsName {id : Token} {text : List Char} (named : id.spellsName)
    (loose : Loose text) : Lexeme.Ends id.kind text := by
  apply loose.ends
  exact .inl (Node.kind_of_spellsName named)

theorem ends_before_blank {kind : TokenKind} (other : kind ≠ .comment) (text : List Char) :
    Lexeme.Ends kind (' ' :: text) := Lexeme.ends_before other (.inl rfl) text

theorem Token.spells.legible {t : Token} {kinds : List TokenKind} (spelled : t.spells kinds) :
    t.legible := by
  simp only [Token.spells, Bool.and_eq_true] at spelled
  exact spelled.2

theorem Token.spellsOperator.legible {op : Token} (binary : op.spellsOperator) : op.legible := by
  simp only [Token.spellsOperator, Bool.and_eq_true] at binary
  exact binary.2

namespace Piece

variable {w : Nat} {ps qs : List Piece} {text : List Char}

/-- The characters of a layout. -/
def written (w : Nat) (ps : List Piece) : List Char := ps.flatMap (Piece.text w)

theorem written_append (ps qs : List Piece) : written w (ps ++ qs) = written w ps ++ written w qs :=
  List.flatMap_append

/-- Before the given text, the characters of a layout read back as its tokens. -/
def Readable (w : Nat) (ps : List Piece) (text : List Char) : Prop :=
  ∀ us, Lexes text us → Lexes (written w ps ++ text) (tokens ps ++ us)

namespace Readable

theorem nil : Readable w [] text := by
  intro us h
  exact h

theorem append (first : Readable w ps (written w qs ++ text)) (second : Readable w qs text) :
    Readable w (ps ++ qs) text := by
  intro us h
  rw [written_append, tokens_append, List.append_assoc, List.append_assoc]
  exact first _ (second us h)

theorem cons {p : Piece} (first : Readable w [p] (written w ps ++ text))
    (second : Readable w ps text) : Readable w (p :: ps) text := append first second

theorem token {t : Token} (legible : t.legible) (ends : Lexeme.Ends t.kind text) :
    Readable w [ofToken t] text := by
  intro us h
  have same : written w [ofToken t] = t.value.toList := by
    simp [written, ofToken, Piece.text]
  rw [same]
  exact h.token legible ends

theorem mark {kind : TokenKind} (legible : (Token.fixed kind).legible)
    (ends : Lexeme.Ends kind text) : Readable w [Piece.mark kind] text := by
  intro us h
  have same : written w [Piece.mark kind] = (Token.fixed kind).value.toList := by
    simp [written, Piece.mark, Piece.text, Token.fixed, Token.ofText]
  rw [same]
  exact h.token legible ends

/-- A mark that no character carries on. -/
theorem closed {kind : TokenKind} (legible : (Token.fixed kind).legible)
    (closed : ∀ c, Lexeme.goesOn kind c = false) : Readable w [Piece.mark kind] text :=
  mark legible fun c _ => closed c

theorem blank {p : Piece} (blanks : ∀ x ∈ p.text w, Cursor.isBlank x) (none : p.token? = none) :
    Readable w [p] text := by
  intro us h
  have read := h.blanks blanks
  simpa [written, tokens, none] using read

theorem space : Readable w [.space] text := blank (by simp [Piece.text, Cursor.isBlank]) rfl

theorem newline : Readable w [.newline] text := blank (by simp [Piece.text, Cursor.isBlank]) rfl

theorem indent (level : Nat) : Readable w [.indent level] text := by
  refine blank (fun x member => ?_) rfl
  rw [List.eq_of_mem_replicate member]
  rfl

theorem openGroup : Readable w [.openGroup] text :=
  @closed w text .leftParen rfl fun _ => rfl

theorem closeGroup : Readable w [.closeGroup] text :=
  @closed w text .rightParen rfl fun _ => rfl

theorem grouped {parens : Bool} (loose : Loose text)
    (inside : ∀ text, Loose text → Readable w ps text) : Readable w (grouped parens ps) text := by
  cases parens with
  | true =>
    exact .append (.cons .openGroup (inside _ (loose_cons rfl _))) .closeGroup
  | false => exact inside text loose

theorem spaced {op : Token} (legible : op.legible) (other : op.kind ≠ .comment) :
    Readable w (Piece.spaced op) text :=
  .cons .space (.cons (.token legible (ends_before_blank other _)) .space)

theorem guarded {test : List Piece} (inside : ∀ text, Loose text → Readable w test text) :
    Readable w (Piece.guarded test) text := by
  refine .append (.cons ?_ (.cons .space (.cons ?_ ?_))) (.cons ?_ .space)
  · exact .mark rfl (ends_before_blank (by simp) _)
  · exact .closed rfl fun _ => rfl
  · exact inside _ (loose_cons rfl _)
  · exact .closed rfl fun _ => rfl

theorem braced {level : Nat} {lines : List Piece} (inside : ∀ text, Readable w lines text) :
    Readable w (Piece.braced level lines) text := by
  refine .append (.cons ?_ (.cons .newline (inside _))) (.cons (.indent level) ?_)
  · exact .closed rfl fun _ => rfl
  · exact .closed rfl fun _ => rfl

end Readable
end Piece

/-- No operand begins with the character that would carry on a negation. -/
theorem Lexeme.Begins.not_equal_sign {kind : TokenKind} {value ahead : List Char}
    (h : Begins kind value ahead) (operand : kind = .identifier ∨ kind ∈ TokenKind.literals) :
    ∃ c more, value = c :: more ∧ c ≠ '=' := by
  cases h with
  | symbol listed _ =>
    have table : ∀ entry ∈ spellings,
        ¬ (entry.2 = .identifier ∨ entry.2 ∈ TokenKind.literals) := by decide
    exact absurd operand (table _ listed)
  | integer digit _ _ =>
    refine ⟨_, _, rfl, ?_⟩
    rintro rfl
    simp at digit
  | string _ => exact ⟨_, _, rfl, by decide⟩
  | word start _ _ =>
    refine ⟨_, _, rfl, ?_⟩
    rintro rfl
    simp [startsWord] at start
  | comment _ _ => simp [TokenKind.literals] at operand

namespace Node
open Piece

variable {w : Nat}

theorem token_starts {t : Token} (legible : t.legible)
    (operand : t.kind = .identifier ∨ t.kind ∈ TokenKind.literals) (ps : List Piece) :
    ∃ c more, written w (ofToken t :: ps) = c :: more ∧ c ≠ '=' := by
  obtain ⟨c, more, value, other⟩ := (Lexeme.begins_of_reads legible).not_equal_sign operand
  refine ⟨c, more ++ written w ps, ?_, other⟩
  simp [written, ofToken, Piece.text, value]

theorem name_starts {id : Token} (named : id.spellsName) (ps : List Piece) :
    ∃ c more, written w (ofToken id :: ps) = c :: more ∧ c ≠ '=' :=
  token_starts (Token.spells.legible named) (.inl (kind_of_spellsName named)) ps

theorem grouped_starts (parens : Bool) {inside : List Piece}
    (starts : ∃ c more, written w inside = c :: more ∧ c ≠ '=') :
    ∃ c more, written w (grouped parens inside) = c :: more ∧ c ≠ '=' := by
  cases parens with
  | true => exact ⟨'(', _, rfl, by decide⟩
  | false => exact starts

theorem expression_starts (e : Node) (formed : e.formsExpression) :
    ∃ c more, written w e.expressionLayout = c :: more ∧ c ≠ '=' := by
  cases e with
  | identifier id => exact name_starts formed []
  | literal value =>
    exact token_starts (Token.spells.legible formed) (.inr (kind_of_spells formed)) []
  | scopeAccess id inner =>
    simp only [formsExpression, Bool.and_eq_true] at formed
    exact name_starts formed.1 _
  | arrayAccess id index =>
    simp only [formsExpression, Bool.and_eq_true] at formed
    exact name_starts formed.1 _
  | call id arguments block =>
    cases block with
    | none =>
      simp only [formsExpression, Bool.and_eq_true] at formed
      exact name_starts formed.1 _
    | some body => simp [formsExpression] at formed
  | expressionList items => exact ⟨'[', _, rfl, by decide⟩
  | notOp operand => exact ⟨'!', _, rfl, by decide⟩
  | binaryOp op left right =>
    have bare := unranked_nil formed
    simp only [formsExpression, Bool.and_eq_true] at formed
    obtain ⟨c, more, first, other⟩ :=
      grouped_starts (left.leftNeedsParens op.kind) (expression_starts left formed.1.2)
    rw [expressionLayout, bare, List.nil_append, List.append_assoc, written_append, first]
    exact ⟨c, _, rfl, other⟩
  | assignment | condition | statementList => simp [formsExpression] at formed

theorem ends_bang {text : List Char} (starts : ∃ c more, text = c :: more ∧ c ≠ '=') :
    Lexeme.Ends .bang text := by
  obtain ⟨c, more, rfl, other⟩ := starts
  intro x head
  cases Option.some.inj head
  simpa [Lexeme.goesOn] using other

theorem not_comment {op : Token} (binary : op.spellsOperator) : op.kind ≠ .comment := by
  intro comment
  simp [Token.spellsOperator, comment, TokenKind.binaryPrecedence?] at binary

theorem name_readable {id : Token} {text : List Char} (named : id.spellsName)
    (loose : Loose text) : Readable w [ofToken id] text :=
  .token (Token.spells.legible named) (ends_of_spellsName named loose)

mutual

theorem expression_readable : (e : Node) → e.formsExpression → ∀ text, Loose text →
    Readable w e.expressionLayout text
  | .identifier id, formed => fun text loose => name_readable formed loose
  | .literal value, formed => fun text loose =>
    .token (Token.spells.legible formed) (loose.ends (.inr (kind_of_spells formed)))
  | .scopeAccess id inner, formed => by
    intro text loose
    simp only [formsExpression, Bool.and_eq_true] at formed
    refine .cons (name_readable formed.1 (loose_cons rfl _)) (.cons ?_ ?_)
    · exact .closed rfl fun _ => rfl
    · exact name_readable formed.2 loose
  | .arrayAccess id index, formed => by
    intro text loose
    simp only [formsExpression, Bool.and_eq_true] at formed
    refine .append (.cons (name_readable formed.1 (loose_cons rfl _)) (.cons ?_ ?_)) ?_
    · exact .closed rfl fun _ => rfl
    · exact expression_readable index formed.2 _ (loose_cons rfl _)
    · exact .closed rfl fun _ => rfl
  | .call id arguments none, formed => by
    intro text loose
    simp only [formsExpression, Bool.and_eq_true] at formed
    refine .append (.cons (name_readable formed.1 (loose_cons rfl _)) (.cons ?_ ?_)) ?_
    · exact .closed rfl fun _ => rfl
    · exact list_readable arguments formed.2 _ (loose_cons rfl _)
    · exact .closed rfl fun _ => rfl
  | .expressionList items, formed => by
    intro text loose
    refine .append (.cons ?_ (list_readable items formed _ (loose_cons rfl _))) ?_
    · exact .closed rfl fun _ => rfl
    · exact .closed rfl fun _ => rfl
  | .notOp operand, formed => by
    intro text loose
    refine .cons (.mark rfl (ends_bang ?_)) (.grouped loose (expression_readable operand formed))
    obtain ⟨c, more, first, other⟩ :=
      grouped_starts operand.notNeedsParens (expression_starts operand formed)
    exact ⟨c, more ++ text, by rw [first]; rfl, other⟩
  | .binaryOp op left right, formed => by
    intro text loose
    have bare := unranked_nil formed
    simp only [formsExpression, Bool.and_eq_true] at formed
    have legible : op.legible := by
      have parts := formed.1.1
      simp only [Token.spellsOperator, Bool.and_eq_true] at parts
      exact parts.2
    rw [expressionLayout, bare, List.nil_append]
    refine .append (.append ?_ (.spaced legible (not_comment formed.1.1))) ?_
    · exact .grouped (loose_cons rfl _) (expression_readable left formed.1.2)
    · exact .grouped loose (expression_readable right formed.2)
  | .call _ _ (some _), formed | .assignment .., formed | .condition .., formed
  | .statementList _, formed => by simp [formsExpression] at formed

theorem list_readable : (items : List Node) → allExpressions items → ∀ text, Loose text →
    Readable w (listLayout items) text
  | [], _ => fun _ _ => .nil
  | item :: more, formed => by
    intro text loose
    simp only [allExpressions, Bool.and_eq_true] at formed
    refine .append (expression_readable item formed.1 _ ?_) (more_readable more formed.2 _ loose)
    cases more with
    | nil => exact loose
    | cons second more => exact loose_cons rfl _

theorem more_readable : (items : List Node) → allExpressions items → ∀ text, Loose text →
    Readable w (moreLayout items) text
  | [], _ => fun _ _ => .nil
  | item :: more, formed => by
    intro text loose
    simp only [allExpressions, Bool.and_eq_true] at formed
    refine .append (.cons ?_ (.cons .space (expression_readable item formed.1 _ ?_)))
      (more_readable more formed.2 _ loose)
    · exact .closed rfl fun _ => rfl
    · cases more with
      | nil => exact loose
      | cons second more => exact loose_cons rfl _

end

mutual

theorem statement_readable (level : Nat) : (statement : Node) → statement.formsStatement →
    ∀ text, Readable w (statement.statementLayout level) text
  | .assignment op target value, formed => by
    intro text
    simp only [formsStatement, Bool.and_eq_true] at formed
    obtain ⟨id, rfl, named⟩ := target_formed formed.1.1
    have other : op.kind ≠ .comment := by
      intro comment
      have assigns := kind_of_spells formed.1.2
      simp [comment, TokenKind.assignmentOperators] at assigns
    refine .append (.append (.append (.cons (.indent level) ?_) ?_) ?_) .newline
    · exact name_readable named (loose_cons rfl _)
    · exact .spaced (Token.spells.legible formed.1.2) other
    · exact expression_readable value formed.2 _ (loose_cons rfl _)
  | .call id arguments none, formed => by
    intro text
    refine .append (.cons (.indent level) ?_) .newline
    exact expression_readable (.call id arguments none) formed _ (loose_cons rfl _)
  | .call id arguments (some body), formed => by
    intro text
    simp only [formsStatement, Bool.and_eq_true] at formed
    have head : (call id arguments none).formsExpression := by
      simp [formsExpression, formed.1.1, formed.1.2]
    refine .append (.append (.cons (.indent level) ?_) (.cons .space ?_)) .newline
    · exact expression_readable (.call id arguments none) head _ (loose_cons rfl _)
    · exact .braced (statements_readable (level + 1) body formed.2)
  | .condition test body alternative, formed => by
    intro text
    simp only [formsStatement, Bool.and_eq_true] at formed
    refine .append (.append (.append (.cons (.indent level) ?_) ?_) ?_) .newline
    · exact .guarded (expression_readable test formed.1.1)
    · exact .braced (statements_readable (level + 1) body formed.1.2)
    · exact alternative_readable level alternative formed.2 _
  | .arrayAccess .., formed | .binaryOp .., formed | .expressionList .., formed
  | .identifier _, formed | .literal _, formed | .notOp _, formed | .scopeAccess .., formed
  | .statementList _, formed => by simp [formsStatement] at formed

theorem alternative_readable (level : Nat) : (alternative : Alternative) → alternative.isFormed →
    ∀ text, Readable w (alternativeLayout level alternative) text
  | .absent, _ => fun _ => .nil
  | .elseIf test body alternative, formed => by
    intro text
    simp only [Alternative.isFormed, Bool.and_eq_true] at formed
    refine .append (.append (.cons .space (.cons ?_ (.cons .space ?_))) ?_) ?_
    · exact .mark rfl (ends_before_blank (by simp) _)
    · exact .guarded (expression_readable test formed.1.1)
    · exact .braced (statements_readable (level + 1) body formed.1.2)
    · exact alternative_readable level alternative formed.2 _
  | .elseBlock body, formed => by
    intro text
    refine .cons .space (.cons ?_ (.cons .space ?_))
    · exact .mark rfl (ends_before_blank (by simp) _)
    · exact .braced (statements_readable (level + 1) body formed)

theorem statements_readable (level : Nat) : (body : List Node) → allStatements body →
    ∀ text, Readable w (statementsLayout level body) text
  | [], _ => fun _ => .nil
  | statement :: more, formed => by
    intro text
    simp only [allStatements, Bool.and_eq_true] at formed
    exact .append (statement_readable level statement formed.1 _)
      (statements_readable level more formed.2 _)

end

end Node
end ShiFormat
