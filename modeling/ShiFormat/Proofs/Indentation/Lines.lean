import ShiFormat.Proofs.Faultless.Writer
import ShiFormat.Proofs.Indentation.Blocks

/-!
The canonical text line by line: the width of the indentation shows in the spaces that lead a line,
which are `width` for each block around it, and nowhere else.
-/
namespace ShiFormat
open Surroundings

/-- A text with a first and a last character, of which neither is a blank. -/
def Text.Solid (text : List Char) : Prop :=
  (∃ c ∈ text.head?, Cursor.isBlank c = false) ∧ ∃ c ∈ text.getLast?, Cursor.isBlank c = false

theorem not_mem_of_class {test : Char → Bool} {c : Char} {others : List Char} (inside : test c)
    (outside : others.all fun x => !test x) : c ∉ others := by
  intro member
  have excluded := List.all_eq_true.mp outside c member
  simp [inside] at excluded

theorem isBlank_of_class {test : Char → Bool} {c : Char} (inside : test c)
    (outside : [' ', '\t', '\r', '\n'].all fun x => !test x) : Cursor.isBlank c = false := by
  have other := not_mem_of_class inside outside
  simp_all [Cursor.isBlank]

namespace Lexeme

/-- The text of a token leaves the blocks around it as they are, unless it is a brace. -/
theorem Begins.still {kind : TokenKind} {value ahead : List Char} (h : Begins kind value ahead)
    (other : kind ∉ [.comment, .leftBrace, .rightBrace]) (n : Nat) :
    '\n' ∉ value ∧ past ⟨false, n⟩ value = ⟨false, n⟩ := by
  have of_quiet {text : List Char} (quiet : ∀ c ∈ text, c ∉ marks) :
      '\n' ∉ text ∧ past ⟨false, n⟩ text = ⟨false, n⟩ :=
    ⟨fun newline => quiet '\n' newline (by decide), past_quiet _ quiet⟩
  cases h with
  | symbol listed _ =>
    have table : ∀ entry ∈ spellings, entry.2 ∉ [.comment, .leftBrace, .rightBrace] →
        entry.1.all (· ∉ marks) := by decide
    have quiet := List.all_eq_true.mp (table _ listed other)
    exact of_quiet fun c member => of_decide_eq_true (quiet c member)
  | integer first all _ =>
    refine of_quiet (List.forall_mem_cons.mpr ⟨?_, fun c member => ?_⟩)
    · exact not_mem_of_class first (by decide)
    · exact not_mem_of_class (all c member) (by decide)
  | string inside =>
    refine ⟨?_, past_string n fun c member quote => ?_⟩
    · simp only [List.mem_cons, List.mem_append, List.not_mem_nil, or_false, not_or]
      exact ⟨by decide, fun newline => absurd (inside '\n' newline) (by decide), by decide⟩
    · subst quote
      exact absurd (inside '"' member) (by decide)
  | word first all _ =>
    refine of_quiet (List.forall_mem_cons.mpr ⟨?_, fun c member => ?_⟩)
    · exact not_mem_of_class first (by decide)
    · exact not_mem_of_class (all c member) (by decide)
  | comment _ _ => simp at other

theorem Begins.last {kind : TokenKind} {value ahead : List Char} (h : Begins kind value ahead)
    (other : kind ≠ .comment) : ∃ c ∈ value.getLast?, Cursor.isBlank c = false := by
  have of_all (solid : ∀ c ∈ value, Cursor.isBlank c = false) :
      ∃ c ∈ value.getLast?, Cursor.isBlank c = false :=
    ⟨_, List.getLast?_eq_some_getLast h.ne_nil, solid _ (List.getLast_mem h.ne_nil)⟩
  cases h with
  | symbol listed _ =>
    have table : ∀ entry ∈ spellings, entry.1.all (Cursor.isBlank · = false) := by decide
    have solid := List.all_eq_true.mp (table _ listed)
    exact of_all fun c member => of_decide_eq_true (solid c member)
  | integer first all _ =>
    refine of_all (List.forall_mem_cons.mpr ⟨?_, fun c member => ?_⟩)
    · exact isBlank_of_class first (by decide)
    · exact isBlank_of_class (all c member) (by decide)
  | string _ =>
    refine ⟨'"', ?_, rfl⟩
    rw [← List.cons_append, List.getLast?_concat]
    rfl
  | word first all _ =>
    refine of_all (List.forall_mem_cons.mpr ⟨?_, fun c member => ?_⟩)
    · exact isBlank_of_class first (by decide)
    · exact isBlank_of_class (all c member) (by decide)
  | comment _ _ => simp at other

theorem Begins.not_brace {kind : TokenKind} {value ahead : List Char} (h : Begins kind value ahead)
    (other : kind ≠ .rightBrace) : ∀ c ∈ value.head?, c ≠ '\x7d' := by
  rintro c head rfl
  cases h with
  | symbol listed _ =>
    have table : ∀ entry ∈ spellings, entry.2 ≠ .rightBrace → '\x7d' ∉ entry.1.head? := by decide
    exact table _ listed other head
  | integer first _ _ | word first _ _ =>
    cases Option.some.inj head
    exact absurd first (by decide)
  | string _ | comment _ _ => cases Option.some.inj head

end Lexeme

namespace Piece
variable {ps qs : List Piece}

/-- What is written of the pieces is the same for each width, and part of one line. The blocks
around it stay as they are. -/
structure Calm (ps : List Piece) : Prop where
  same : ∀ w, written w ps = written 0 ps
  single : '\n' ∉ written 0 ps
  still : ∀ n, past ⟨false, n⟩ (written 0 ps) = ⟨false, n⟩

namespace Calm

theorem nil : Calm [] := ⟨fun _ => rfl, by simp [written], fun _ => rfl⟩

theorem append (first : Calm ps) (second : Calm qs) : Calm (ps ++ qs) where
  same w := by rw [written_append, written_append, first.same, second.same]
  single := by
    rw [written_append, List.mem_append, not_or]
    exact ⟨first.single, second.single⟩
  still n := by rw [written_append, past_append, first.still, second.still]

theorem cons {p : Piece} (first : Calm [p]) (second : Calm ps) : Calm (p :: ps) :=
  append first second

theorem quiet {p : Piece} (same : ∀ w, p.text w = p.text 0)
    (quiet : (p.text 0).all (· ∉ marks)) : Calm [p] := by
  have alone (w : Nat) : written w [p] = p.text w := by simp [written]
  have quiet : ∀ c ∈ p.text 0, c ∉ marks := fun c member =>
    of_decide_eq_true (List.all_eq_true.mp quiet c member)
  refine ⟨fun w => ?_, ?_, fun n => ?_⟩
  · rw [alone, alone, same]
  · rw [alone]
    exact fun newline => quiet '\n' newline (by decide)
  · rw [alone, past_quiet _ quiet]

theorem token {t : Token} (legible : t.legible)
    (other : t.kind ∉ [.comment, .leftBrace, .rightBrace]) : Calm [ofToken t] := by
  have alone (w : Nat) : written w [ofToken t] = t.value.toList := by
    simp [written, ofToken, Piece.text]
  have still := (Lexeme.begins_of_reads legible).still other
  refine ⟨fun w => ?_, ?_, fun n => ?_⟩
  · rw [alone, alone]
  · rw [alone]
    exact (still 0).1
  · rw [alone, (still n).2]

theorem mark {kind : TokenKind} (quiet : ((Piece.mark kind).text 0).all (· ∉ marks)) :
    Calm [Piece.mark kind] := Calm.quiet (fun _ => rfl) quiet

theorem space : Calm [.space] := quiet (fun _ => rfl) (by decide)

theorem grouped (h : Calm ps) (parens : Bool) : Calm (grouped parens ps) := by
  cases parens with
  | true =>
    have opening : Calm [.openGroup] := quiet (fun _ => rfl) (by decide)
    have closing : Calm [.closeGroup] := quiet (fun _ => rfl) (by decide)
    exact (opening.cons h).append closing
  | false => exact h

theorem spaced {t : Token} (h : Calm [ofToken t]) : Calm (spaced t) := space.cons (h.cons space)

theorem guarded (h : Calm ps) : Calm (guarded ps) :=
  ((mark (by decide)).cons (space.cons ((mark (by decide)).cons h))).append
    ((mark (by decide)).cons space)

end Calm

/-- The last character of what is written is no blank. -/
def EndsSolid (ps : List Piece) : Prop := ∃ c ∈ (written 0 ps).getLast?, Cursor.isBlank c = false

theorem EndsSolid.behind (h : EndsSolid qs) (ps : List Piece) : EndsSolid (ps ++ qs) := by
  obtain ⟨c, last, solid⟩ := h
  refine ⟨c, ?_, solid⟩
  rw [written_append, List.getLast?_append, Option.mem_def.mp last]
  rfl

theorem endsSolid_token {t : Token} (legible : t.legible) (other : t.kind ≠ .comment) :
    EndsSolid [ofToken t] := by
  obtain ⟨c, last, solid⟩ := (Lexeme.begins_of_reads legible).last other
  exact ⟨c, by simpa [written, ofToken, Piece.text] using last, solid⟩

theorem EndsSolid.grouped (h : EndsSolid ps) (parens : Bool) : EndsSolid (grouped parens ps) := by
  cases parens with
  | true =>
    have closing : EndsSolid [.closeGroup] := ⟨')', rfl, rfl⟩
    exact closing.behind (.openGroup :: ps)
  | false => exact h

end Piece

namespace Node
open Piece

theorem calm_spells {t : Token} {kinds : List TokenKind} (spelled : t.spells kinds)
    (other : ∀ kind ∈ kinds, kind ∉ [.comment, .leftBrace, .rightBrace]) : Calm [ofToken t] :=
  .token (Token.spells.legible spelled) (other _ (kind_of_spells spelled))

theorem calm_name {id : Token} (named : id.spellsName) : Calm [ofToken id] :=
  calm_spells named (by decide)

theorem calm_operator {op : Token} (binary : op.spellsOperator) : Calm [ofToken op] := by
  simp only [Token.spellsOperator, Bool.and_eq_true] at binary
  refine .token binary.2 fun other => ?_
  have table : ∀ kind ∈ [TokenKind.comment, .leftBrace, .rightBrace],
      kind.binaryPrecedence?.isSome = false := by decide
  rw [table _ other] at binary
  cases binary.1

mutual

theorem expression_calm : (e : Node) → e.formsExpression → Calm e.expressionLayout
  | .identifier id, formed => calm_name formed
  | .literal value, formed => calm_spells formed (by decide)
  | .scopeAccess id inner, formed => by
    simp only [formsExpression, Bool.and_eq_true] at formed
    exact (calm_name formed.1).cons ((Calm.mark (by decide)).cons (calm_name formed.2))
  | .arrayAccess id index, formed => by
    simp only [formsExpression, Bool.and_eq_true] at formed
    have inside := expression_calm index formed.2
    exact ((calm_name formed.1).cons ((Calm.mark (by decide)).cons inside)).append
      (.mark (by decide))
  | .call id arguments none, formed => by
    simp only [formsExpression, Bool.and_eq_true] at formed
    have inside := list_calm arguments formed.2
    exact ((calm_name formed.1).cons ((Calm.mark (by decide)).cons inside)).append
      (.mark (by decide))
  | .expressionList items, formed => by
    have inside := list_calm items formed
    exact ((Calm.mark (by decide)).cons inside).append (.mark (by decide))
  | .notOp operand, formed => by
    have inside := (expression_calm operand formed).grouped operand.notNeedsParens
    exact (Calm.mark (by decide)).cons inside
  | .binaryOp op left right, formed => by
    have bare := unranked_nil formed
    simp only [formsExpression, Bool.and_eq_true] at formed
    have first := (expression_calm left formed.1.2).grouped (left.leftNeedsParens op.kind)
    have second := (expression_calm right formed.2).grouped (right.rightNeedsParens op.kind)
    rw [expressionLayout, bare, List.nil_append]
    exact (first.append (calm_operator formed.1.1).spaced).append second
  | .call _ _ (some _), formed | .assignment .., formed | .condition .., formed
  | .statementList _, formed => by simp [formsExpression] at formed

theorem list_calm : (items : List Node) → allExpressions items → Calm (listLayout items)
  | [], _ => .nil
  | item :: more, formed => by
    simp only [allExpressions, Bool.and_eq_true] at formed
    exact (expression_calm item formed.1).append (more_calm more formed.2)

theorem more_calm : (items : List Node) → allExpressions items → Calm (moreLayout items)
  | [], _ => .nil
  | item :: more, formed => by
    simp only [allExpressions, Bool.and_eq_true] at formed
    have first := Calm.space.cons (expression_calm item formed.1)
    exact ((Calm.mark (by decide)).cons first).append (more_calm more formed.2)

end

theorem endsSolid_spells {t : Token} {kinds : List TokenKind} (spelled : t.spells kinds)
    (other : .comment ∉ kinds) : EndsSolid [ofToken t] := by
  refine endsSolid_token (Token.spells.legible spelled) fun comment => ?_
  have kind : t.kind ∈ kinds := kind_of_spells spelled
  exact other (comment ▸ kind)

theorem expression_endsSolid : (e : Node) → e.formsExpression → EndsSolid e.expressionLayout
  | .identifier id, formed => endsSolid_spells formed (by decide)
  | .literal value, formed => endsSolid_spells formed (by decide)
  | .scopeAccess id inner, formed => by
    simp only [formsExpression, Bool.and_eq_true] at formed
    exact (endsSolid_spells formed.2 (by decide)).behind [ofToken id, mark .dot]
  | .arrayAccess _ _, _ | .expressionList _, _ => by
    have bracket : EndsSolid [mark .rightBracket] := ⟨']', rfl, rfl⟩
    exact bracket.behind _
  | .call _ _ none, _ => by
    have parenthesis : EndsSolid [mark .rightParen] := ⟨')', rfl, rfl⟩
    exact parenthesis.behind _
  | .notOp operand, formed =>
    ((expression_endsSolid operand formed).grouped operand.notNeedsParens).behind [mark .bang]
  | .binaryOp op left right, formed => by
    simp only [formsExpression, Bool.and_eq_true] at formed
    exact ((expression_endsSolid right formed.2).grouped (right.rightNeedsParens op.kind)).behind _
  | .call _ _ (some _), formed | .assignment .., formed | .condition .., formed
  | .statementList _, formed => by simp [formsExpression] at formed

end Node

namespace Piece

/-- What is written of the pieces may start a line at this level, with `before` blocks open before
the line and `after` blocks behind the pieces. -/
structure StartsLine (before level after : Nat) (ps : List Piece) : Prop where
  same : ∀ w, written w ps = written 0 ps
  single : '\n' ∉ written 0 ps
  solid : ∃ c ∈ (written 0 ps).head?, Cursor.isBlank c = false
  depth : depth ⟨false, before⟩ (written 0 ps) = level
  past : past ⟨false, before⟩ (written 0 ps) = ⟨false, after⟩

/-- Lines with nothing before or behind them, each led by as many levels as blocks are open. -/
inductive Lined : Nat → List Piece → Nat → Prop where
  | nil {blocks : Nat} : Lined blocks [] blocks
  | line {before level middle after : Nat} {inside ps : List Piece}
    (starts : StartsLine before level middle inside) (ends : EndsSolid inside)
    (more : Lined middle ps after) :
    Lined before (.indent level :: inside ++ .newline :: ps) after

namespace StartsLine
variable {before level after last : Nat}

/-- A line of its own starts with no brace, and opens and closes no block. -/
theorem of_calm (calm : Calm ps) {c : Char} (first : (written 0 ps).head? = some c)
    (solid : Cursor.isBlank c = false) (other : c ≠ '\x7d') : StartsLine level level level ps where
  same := calm.same
  single := calm.single
  solid := ⟨c, first, solid⟩
  depth := by simp [Surroundings.depth, first, other]
  past := calm.still level

theorem append (h : StartsLine before level after ps) (same : ∀ w, written w qs = written 0 qs)
    (single : '\n' ∉ written 0 qs)
    (passed : Surroundings.past ⟨false, after⟩ (written 0 qs) = ⟨false, last⟩) :
    StartsLine before level last (ps ++ qs) := by
  obtain ⟨c, first, solid⟩ := h.solid
  have front : (written 0 (ps ++ qs)).head? = (written 0 ps).head? := by
    rw [written_append, List.head?_append, Option.mem_def.mp first]
    rfl
  refine ⟨fun w => ?_, ?_, ⟨c, front ▸ first, solid⟩, ?_, ?_⟩
  · rw [written_append, written_append, h.same, same]
  · rw [written_append, List.mem_append, not_or]
    exact ⟨h.single, single⟩
  · rw [Surroundings.depth, front]
    exact h.depth
  · rw [written_append, past_append, h.past, passed]

theorem calm (h : StartsLine before level after ps) (calm : Calm qs) :
    StartsLine before level after (ps ++ qs) := h.append calm.same calm.single (calm.still after)

theorem opens (h : StartsLine before level after ps) :
    StartsLine before level (after + 1) (ps ++ [mark .leftBrace]) :=
  h.append (fun _ => rfl) (by decide) rfl

theorem closing : StartsLine (level + 1) level level [mark .rightBrace] :=
  ⟨fun _ => rfl, by decide, ⟨'\x7d', rfl, rfl⟩, rfl, rfl⟩

end StartsLine

namespace Lined
variable {before level middle after : Nat}

theorem append (first : Lined before ps middle) (second : Lined middle qs after) :
    Lined before (ps ++ qs) after := by
  induction first with
  | nil => exact second
  | line starts ends _ ih =>
    have lines := Lined.line starts ends (ih second)
    simpa using lines

theorem single (starts : StartsLine before level after ps) (ends : EndsSolid ps) :
    Lined before (.indent level :: ps ++ [.newline]) after := .line starts ends .nil

/-- A block opened at the end of a line, up to the line that closes it. -/
theorem block {head lines tail : List Piece} (starts : StartsLine before level level head)
    (inside : Lined (level + 1) lines (level + 1))
    (more : Lined (level + 1) (.indent level :: mark .rightBrace :: tail) after) :
    Lined before (.indent level :: head ++ braced level lines ++ tail) after := by
  have brace : EndsSolid [mark .leftBrace] := ⟨'\x7b', rfl, rfl⟩
  have whole := Lined.line starts.opens (brace.behind head) (inside.append more)
  simpa [braced] using whole

end Lined
end Piece

namespace Node
open Piece

theorem name_startsLine {id : Token} (named : id.spellsName) (level : Nat) :
    StartsLine level level level [ofToken id] := by
  have begins := Lexeme.begins_of_reads (Token.spells.legible named)
  obtain ⟨c, more, value, solid⟩ := begins.not_blank
  have kind : id.kind = .identifier := kind_of_spellsName named
  have other : c ≠ '\x7d' := by
    refine begins.not_brace (by simp [kind]) c ?_
    rw [value, List.head?_cons, Option.mem_some_iff]
  exact .of_calm (calm_name named) (by simp [Piece.written, ofToken, Piece.text, value]) solid other

theorem guarded_startsLine {test : Node} (formed : test.formsExpression) (level : Nat) :
    StartsLine level level level (guarded test.expressionLayout) :=
  .of_calm (expression_calm test formed).guarded (c := 'i') rfl rfl (by decide)

/-- The closing brace of a block and the word after it. -/
theorem else_startsLine (level : Nat) :
    StartsLine (level + 1) level level [mark .rightBrace, .space, mark .elseWord, .space] :=
  StartsLine.closing.calm (Calm.space.cons ((Calm.mark (by decide)).cons .space))

theorem call_startsLine {id : Token} {arguments : List Node} (named : id.spellsName)
    (formed : allExpressions arguments) (level : Nat) :
    StartsLine level level level (call id arguments none).expressionLayout := by
  have applied : Calm (mark .leftParen :: listLayout arguments ++ [mark .rightParen]) :=
    ((Calm.mark (by decide)).cons (list_calm arguments formed)).append (.mark (by decide))
  exact (name_startsLine named level).calm applied

mutual

theorem statement_lined (level : Nat) : (statement : Node) → statement.formsStatement →
    Lined level (statement.statementLayout level) level
  | .assignment op target value, formed => by
    simp only [formsStatement, Bool.and_eq_true] at formed
    obtain ⟨⟨at_target, assigns⟩, at_value⟩ := formed
    obtain ⟨id, rfl, named⟩ := target_formed at_target
    have operator : Calm (spaced op) := (calm_spells assigns (by decide)).spaced
    have starts := ((name_startsLine named level).calm operator).calm
      (expression_calm value at_value)
    have ends := (expression_endsSolid value at_value).behind ([ofToken id] ++ spaced op)
    simpa [statementLayout, expressionLayout] using Lined.single starts ends
  | .call id arguments none, formed => by
    simp only [formsStatement, Bool.and_eq_true] at formed
    have parenthesis : EndsSolid [mark .rightParen] := ⟨')', rfl, rfl⟩
    exact .single (call_startsLine formed.1 formed.2 level) (parenthesis.behind _)
  | .call id arguments (some body), formed => by
    simp only [formsStatement, Bool.and_eq_true] at formed
    have starts := (call_startsLine formed.1.1 formed.1.2 level).calm .space
    have brace : EndsSolid [mark .rightBrace] := ⟨'\x7d', rfl, rfl⟩
    have block := Lined.block starts (statements_lined (level + 1) body formed.2)
      (.single .closing brace)
    simpa [statementLayout, braced] using block
  | .condition test body alternative, formed => by
    simp only [formsStatement, Bool.and_eq_true] at formed
    have block := Lined.block (guarded_startsLine formed.1.1 level)
      (statements_lined (level + 1) body formed.1.2)
      (alternative_lined level alternative formed.2)
    simpa [statementLayout, braced] using block
  | .arrayAccess .., formed | .binaryOp .., formed | .expressionList .., formed
  | .identifier _, formed | .literal _, formed | .notOp _, formed | .scopeAccess .., formed
  | .statementList _, formed => by simp [formsStatement] at formed

/-- The line that closes a block goes on with what follows the block. -/
theorem alternative_lined (level : Nat) : (alternative : Alternative) → alternative.isFormed →
    Lined (level + 1)
      (.indent level :: mark .rightBrace :: (alternativeLayout level alternative ++ [.newline]))
      level
  | .absent, _ => .single .closing ⟨'\x7d', rfl, rfl⟩
  | .elseIf test body alternative, formed => by
    simp only [Alternative.isFormed, Bool.and_eq_true] at formed
    have starts := (else_startsLine level).calm (expression_calm test formed.1.1).guarded
    have block := Lined.block starts (statements_lined (level + 1) body formed.1.2)
      (alternative_lined level alternative formed.2)
    simpa [alternativeLayout, braced] using block
  | .elseBlock body, formed => by
    have brace : EndsSolid [mark .rightBrace] := ⟨'\x7d', rfl, rfl⟩
    have block := Lined.block (else_startsLine level) (statements_lined (level + 1) body formed)
      (.single .closing brace)
    simpa [alternativeLayout, braced] using block

theorem statements_lined (level : Nat) : (body : List Node) → allStatements body →
    Lined level (statementsLayout level body) level
  | [], _ => .nil
  | statement :: more, formed => by
    simp only [allStatements, Bool.and_eq_true] at formed
    exact (statement_lined level statement formed.1).append (statements_lined level more formed.2)

end

end Node

/-- What is written for a width is what is written for none, each line led by as many times the
width as blocks are open. -/
theorem Piece.Lined.lines {ps : List Piece} {before after : Nat} (h : Lined before ps after) :
    ∃ ls : List (List Char), (∀ line ∈ ls, '\n' ∉ line ∧ Text.Solid line) ∧
      ∀ w, written w ps = Text.unlines (indented w ⟨false, before⟩ ls) := by
  induction h with
  | nil => exact ⟨[], by simp, fun _ => rfl⟩
  | @line before level middle after inside ps starts ends more ih =>
    obtain ⟨ls, whole, same⟩ := ih
    refine ⟨written 0 inside :: ls, ?_, fun w => ?_⟩
    · exact List.forall_mem_cons.mpr ⟨⟨starts.single, starts.solid, ends⟩, whole⟩
    · have lead : written w [.indent level] = List.replicate (w * level) ' ' := by
        simp [written, Piece.text, Nat.mul_comm]
      rw [indented, Text.unlines_cons, past_append, starts.past, past_newline, starts.depth,
        ← same w, ← lead, ← starts.same w]
      simp [written, Piece.text]

theorem Node.format_lined {t : Node} (formed : t.wellFormed) :
    ∃ ls : List (List Char), (∀ line ∈ ls, '\n' ∉ line ∧ Text.Solid line) ∧
      ∀ width, (t.format width).text.toList = Text.unlines (indented width .outermost ls) := by
  obtain ⟨body, rfl, formed⟩ := wellFormed_iff.mp formed
  have whole := statements_whole 0 body formed
  obtain ⟨ls, solid, same⟩ := (statements_lined 0 body formed).lines
  refine ⟨ls, solid, fun width => ?_⟩
  rw [Node.format, Rendering.ofLayout, layout, Piece.visible_of_whole whole, String.toList_ofList]
  exact same width

theorem single_indented {width : Nat} {s : Surroundings} {ls : List (List Char)}
    (single : ∀ line ∈ ls, '\n' ∉ line) : ∀ line ∈ indented width s ls, '\n' ∉ line := by
  intro line member
  obtain ⟨n, bare, found, rfl⟩ := mem_indented member
  simp [single bare found]

theorem last_indented {width : Nat} {s : Surroundings} {ls : List (List Char)}
    (solid : ∀ line ∈ ls, Text.Solid line) :
    ∀ line ∈ indented width s ls, line.getLast? ≠ some ' ' := by
  intro line member
  obtain ⟨n, bare, found, rfl⟩ := mem_indented member
  obtain ⟨c, last, solid⟩ := (solid bare found).2
  rw [List.getLast?_append, Option.mem_def.mp last]
  rintro ⟨⟩
  cases solid

/-- The lines of the text that is written for a width are those of the text for no width, each led
by `width` spaces for each block around it. These start and end with no blank, and a newline closes
every line. The text is written unless a line is led by more spaces than padding can have. -/
theorem indentation_leads_lines (path : Path) (text : String) (tree : Node)
    (accepted : parse path text = .ok tree) :
    let bare := Text.lines (tree.format 0).text.toList
    (∀ line ∈ bare, Text.Solid line) ∧
      ∀ width,
        let written := Text.lines (tree.format width).text.toList
        Checked.Formats width tree ∧ written = indented width .outermost bare ∧
          written.length = bare.length ∧ (tree.format width).text.toList = Text.unlines written ∧
          ∀ line ∈ written, line.getLast? ≠ some ' ' := by
  intro bare
  obtain ⟨ls, solid, same⟩ := Node.format_lined (wellFormed_of_parse accepted)
  have single : ∀ line ∈ ls, '\n' ∉ line := fun line member => (solid line member).1
  have lines (width : Nat) :
      Text.lines (tree.format width).text.toList = indented width .outermost ls := by
    rw [same, Text.lines_unlines (single_indented single)]
  have unindented : bare = ls := (lines 0).trans (indented_zero _ ls)
  rw [unindented]
  refine ⟨fun line member => (solid line member).2, fun width => ?_⟩
  rw [lines]
  refine ⟨Checked.formats accepted width, rfl, indented_length width _ ls, same width, ?_⟩
  exact last_indented fun line member => (solid line member).2

/-- A string with a brace in it, and a block in an `else`. -/
theorem indentation_leads_lines_quoted_brace :
    let path : Path := ⟨"BUILD.shi"⟩
    let text := "if (a) \x7bx = \"\x7b\" f()\x7d else \x7b\x7d"
    ∃ tree, parse path text = .ok tree ∧
      Text.lines (tree.format 3).text.toList =
        indented 3 .outermost (Text.lines (tree.format 0).text.toList) ∧
      Text.lines (tree.format 3).text.toList =
        ["if (a) \x7b", "   x = \"\x7b\"", "   f()", "\x7d else \x7b", "\x7d"].map
          String.toList := by
  intro path text
  obtain ⟨tree, accepted, shown⟩ := accepted_of_check path text (fun tree =>
    Text.lines (tree.format 3).text.toList =
      ["if (a) \x7b", "   x = \"\x7b\"", "   f()", "\x7d else \x7b", "\x7d"].map String.toList)
    (by decide +kernel)
  have led := (indentation_leads_lines path text tree accepted).2 3
  exact ⟨tree, accepted, led.2.1, of_decide_eq_true shown⟩

/-- `g() { x() }` with more spaces for the block than padding can have: nothing is written. -/
theorem wide_line_not_written :
    let text := "g()\x7bx()\x7d"
    ∃ tree, parse ⟨"BUILD.shi"⟩ text = .ok tree ∧
      Checked.format 0x10000 tree = Checked.fault .padding := by
  intro text
  obtain ⟨tree, accepted, wide⟩ :=
    accepted_of_check ⟨"BUILD.shi"⟩ text (Node.overpadded 0x10000) (by decide +kernel)
  exact ⟨tree, accepted, if_pos wide⟩

end ShiFormat
