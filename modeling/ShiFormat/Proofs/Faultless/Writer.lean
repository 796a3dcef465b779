import ShiFormat.Trace
import ShiFormat.Proofs.Fault
import ShiFormat.Proofs.Canonical.Parsed
import ShiFormat.Proofs.Canonical.RoundTrip

/-!
Writing the tree of an accepted text asks operators only for their precedence, and indents no line
by more levels than the parser lets a text nest. What can be at fault is the padding alone, where a
level is so wide that some line has more of it than `paddingLimit`.
-/
namespace ShiFormat

/-- The canonical text, where no line had too much padding and no kind without a precedence was
asked for it. -/
def Checked.format (width : Nat) (n : Node) : Checked Rendering :=
  if n.overpadded width then fault .padding
  else match (n.format width).brokenOff with
    | some (.unranked kind) => fault (.unranked kind)
    | _ => .ok (n.format width)

namespace Piece

def shallow (limit : Nat) : Piece → Bool
  | .indent level => level ≤ limit
  | _ => true

/-- No line is indented by more levels than this. -/
def within (limit : Nat) (ps : List Piece) : Bool := ps.all (shallow limit)

/-- Lines of these levels at the most, and any reason to break off. -/
def Limits.upTo (limit : Nat) : Limits := { reached := fun level => level ≤ limit }

theorem within_eq (limit : Nat) (ps : List Piece) : within limit ps = allMeet (.upTo limit) ps :=
  congrArg ps.all (funext fun p => by cases p <;> rfl)

@[simp] theorem upTo_reached (limit level : Nat) :
    (Limits.upTo limit).reached level = decide (level ≤ limit) := rfl

end Piece

namespace Node
open Piece
variable (limit : Nat)

theorem break?_upTo (position : Position) (n : Node) :
    (n.break? position).all (Limits.upTo limit).admitted := by
  cases n.break? position <;> rfl

/-- An expression is written on one line. -/
@[simp] theorem expression_upTo (e : Node) : allMeet (.upTo limit) e.expressionLayout :=
  expression_meets e (break?_upTo limit .expression e)
    (List.all_eq_true.mpr fun x _ => break?_upTo limit x.1 x.2)

end Node

namespace Grammar
open Piece Node
variable {limit : Nat}

mutual

/-- A block opens a level of nesting for the level by which its lines are indented. -/
theorem Block.within {d : Nat} {ts : List Token} {body : List Node} : Block d ts body →
    (level : Nat) → level + d ≤ limit →
      allMeet (.upTo limit) (braced level (statementsLayout (level + 1) body))
  | .braced _ inside _, level, room => by
    have lines := inside.within (level + 1) (by omega)
    have closing : level ≤ limit := by omega
    simp [lines, closing]

theorem Statements.within {d : Nat} {ts : List Token} {body : List Node} :
    Statements d ts body → (level : Nat) → level + d ≤ limit →
      allMeet (.upTo limit) (statementsLayout level body)
  | .nil, _, _ => rfl
  | .cons first others, level, room => by
    have statement := first.within level (by omega)
    have more := others.within level (by omega)
    simp [statementsLayout, statement, more]

theorem Statement.within {d : Nat} {ts : List Token} {statement : Node} :
    Statement d ts statement → (level : Nat) → level + d ≤ limit →
      allMeet (.upTo limit) (statement.statementLayout level)
  | .assignment _ _ _, level, room => by
    have line : level ≤ limit := by omega
    simp [statementLayout, line]
  | .call _, level, room => by
    have line : level ≤ limit := by omega
    simp [statementLayout, line]
  | .callBlock head block, level, room => by
    have line : level ≤ limit := by omega
    have body := block.within level (by omega)
    simp only [statementLayout, allMeet_append, allMeet_indent, allMeet_space, body]
    simp [line]
  | .condition guarded otherwise, level, room => by
    have line : level ≤ limit := by omega
    have body := guarded.within level (by omega)
    have alternative := otherwise.within level (by omega)
    simp only [statementLayout, allMeet_append, allMeet_indent, body]
    simp [line, alternative]

theorem Guarded.within {d : Nat} {ts : List Token} {test : Node} {body : List Node} :
    Guarded d ts test body → (level : Nat) → level + d ≤ limit →
      allMeet (.upTo limit) (braced level (statementsLayout (level + 1) body))
  | .guarded _ _ _ _ block, level, room => block.within level (by omega)

theorem Otherwise.within {d : Nat} {ts : List Token} {alternative : Alternative} :
    Otherwise d ts alternative → (level : Nat) → level + d ≤ limit →
      allMeet (.upTo limit) (alternativeLayout level alternative)
  | .absent, _, _ => rfl
  | .elseIf _ guarded otherwise, level, room => by
    have body := guarded.within level (by omega)
    have alternative := otherwise.within level (by omega)
    simp only [alternativeLayout, allMeet_append, allMeet_space, allMeet_mark, allMeet_guarded, body]
    simp [alternative]
  | .elseBlock _ block, level, room => by
    have body := block.within level room
    simp only [alternativeLayout, allMeet_space, allMeet_mark, body]

end
end Grammar

theorem Grammar.File.layout_within {levels : Nat} {ts : List Token} {tree : Node}
    (derived : File levels ts tree) (limited : levels ≤ nestingLimit) :
    Piece.within nestingLimit tree.layout := by
  obtain ⟨d, fit, body, derived, rfl⟩ := derived
  rw [Piece.within_eq]
  exact derived.within 0 (by omega)

theorem Grammar.File.layout_whole {levels : Nat} {ts : List Token} {tree : Node}
    (derived : File levels ts tree) : Piece.whole tree.layout := by
  obtain ⟨d, _, body, derived, rfl⟩ := derived
  rw [Piece.whole_eq]
  exact Node.statements_meets (fun _ => rfl) 0 body (admits_of_allFit derived.fits)

theorem Node.overpadded_eq_false_iff {width : Nat} {n : Node} (whole : Piece.whole n.layout) :
    n.overpadded width = false ↔
      ∀ level, .indent level ∈ n.layout → level * width ≤ paddingLimit := by
  rw [overpadded, Piece.visible_of_whole whole, List.any_eq_false]
  simp only [decide_eq_true_eq, Nat.not_lt]
  refine ⟨fun narrow level member => narrow (.indent level) member, fun narrow piece member => ?_⟩
  cases piece with
  | indent level => exact narrow level member
  | _ => exact Nat.zero_le paddingLimit

theorem Piece.level_le_of_within {limit level : Nat} {pieces : List Piece}
    (shallow : within limit pieces) (member : .indent level ∈ pieces) : level ≤ limit :=
  of_decide_eq_true (List.all_eq_true.mp shallow (.indent level) member)

namespace Checked

/-- How the canonical text of a tree is written: nothing but the padding of a line can be at fault,
and that not where the deepest line that a text can have is narrow enough. -/
structure Formats (width : Nat) (n : Node) : Prop where
  unbroken : (n.format width).brokenOff = none
  shallow : Piece.within nestingLimit n.layout
  written : format width n = .ok (n.format width) ↔
    ∀ level, .indent level ∈ n.layout → level * width ≤ paddingLimit
  otherwise : format width n = .ok (n.format width) ∨ format width n = fault .padding
  narrow : nestingLimit * width ≤ paddingLimit → format width n = .ok (n.format width)

theorem format_eq {width : Nat} {n : Node} (unbroken : (n.format width).brokenOff = none) :
    format width n = if n.overpadded width then fault .padding else .ok (n.format width) := by
  rw [format, unbroken]

theorem formats_of_derived {levels : Nat} {ts : List Token} {tree : Node}
    (derived : Grammar.File levels ts tree) (limited : levels ≤ nestingLimit) (width : Nat) :
    Formats width tree := by
  have whole := derived.layout_whole
  have unbroken : (tree.format width).brokenOff = none := Piece.findSome_break_of_whole whole
  have shallow := derived.layout_within limited
  have written : format width tree = .ok (tree.format width) ↔
      ∀ level, .indent level ∈ tree.layout → level * width ≤ paddingLimit := by
    rw [format_eq unbroken, ← Node.overpadded_eq_false_iff whole]
    cases tree.overpadded width <;> simp [fault]
  refine ⟨unbroken, shallow, written, ?_, fun room => written.mpr fun level member => ?_⟩
  · rw [format_eq unbroken]
    cases tree.overpadded width
    · exact .inl rfl
    · exact .inr rfl
  · have deepest := Piece.level_le_of_within shallow member
    exact Nat.le_trans (Nat.mul_le_mul_right width deepest) room

theorem formats {path : Path} {text : String} {tree : Node} (accepted : parse path text = .ok tree)
    (width : Nat) : Formats width tree :=
  formats_of_derived (derived_of_parse accepted) (Nat.le_refl nestingLimit) width

end Checked

/-- Whatever the texts and places of the tokens, and in whatever state the parser is: the tree it
yields is a list of statements, each node in it belongs where it stands, and so it is written without
a break and without a warning. -/
theorem parsed_tree_fits_and_is_written (p : Parser) (tree : Node)
    (accepted : p.parse.1 = .ok tree) (width : Nat) :
    tree.statements?.isSome ∧ (∀ x ∈ tree.parts, x.2.fits x.1) ∧ Checked.Formats width tree ∧
      (tree.format width).events = [] := by
  have derived := Parser.derived_of_parse accepted
  have formats := Checked.formats_of_derived derived (Nat.sub_le nestingLimit p.depth) width
  have silent : (tree.format width).events = [] := by
    rw [Rendering.events, formats.unbroken]
  obtain ⟨d, _, body, statements, rfl⟩ := derived
  exact ⟨rfl, List.all_eq_true.mp statements.fits, formats, silent⟩

/-- `if (a[!b]) { x += f(1 - c.d, []) } else { g() { } }`, with no text for any name or literal. -/
theorem parsed_tree_fits_and_is_written_textless :
    let tokens := [.ifWord, .leftParen, .identifier, .leftBracket, .bang, .identifier,
      .rightBracket, .rightParen, .leftBrace, .identifier, .plusEquals, .identifier, .leftParen,
      .integer, .minus, .identifier, .dot, .identifier, .comma, .leftBracket, .rightBracket,
      .rightParen, .rightBrace, .elseWord, .leftBrace, .identifier, .leftParen, .rightParen,
      .leftBrace, .rightBrace, .rightBrace].map fun kind => Token.ofText kind "" .unknown
    ∃ tree, (Parser.ofTokens tokens).parse.1 = .ok tree ∧
      tree.statements?.isSome ∧ (∀ x ∈ tree.parts, x.2.fits x.1) ∧ Checked.Formats 16 tree ∧
        (tree.format 16).events = [] := by
  intro tokens
  exact ⟨_, rfl, parsed_tree_fits_and_is_written (Parser.ofTokens tokens) _ rfl 16⟩

/-- `if (a) { f() }`: one nested line, with more spaces than can be asked for at once. -/
theorem wide_block_at_fault :
    let tokens := [.ifWord, .leftParen, .identifier, .rightParen, .leftBrace, .identifier,
      .leftParen, .rightParen, .rightBrace].map fun kind => Token.ofText kind "a" .unknown
    ∃ tree, (Parser.ofTokens tokens).parse.1 = .ok tree ∧
      Checked.format 0x10000 tree = Checked.fault .padding := by
  intro tokens
  exact ⟨_, rfl, if_pos (by decide +kernel)⟩

end ShiFormat
