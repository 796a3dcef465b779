import ShiFormat.Proofs.Canonical.Text
import ShiFormat.Proofs.Lexing.Longest
import ShiFormat.Proofs.Outline.Branches

/-!
The first line of a node tells its name and, behind that, the tokens that are its own. Where these
are read as what they are, the line tells nothing else.
-/
namespace ShiFormat
open Node

theorem Token.isToken {t : Token} (legible : t.legible) : Lexeme.IsToken t.kind t.value.toList :=
  (Lexeme.begins_of_reads legible).isToken

/-- The text of a token that is read as such tells what the token is. -/
theorem Token.unplaced_of_value {s t : Token} (legible : s.legible) (legible' : t.legible)
    (same : s.value = t.value) : s.unplaced = t.unplaced := by
  have first := Token.isToken legible
  rw [same] at first
  have kind := first.kind_unique (Token.isToken legible')
  simp [unplaced, same, kind]

theorem Lexeme.IsToken.dot_free {name : List Char} (h : IsToken .identifier name) :
    '.' ∉ name := by
  generalize same : TokenKind.identifier = kind at h
  intro member
  cases h with
  | symbol spelled _ =>
    subst same
    cases spelled
  | integer | string | comment => cases same
  | word first all =>
    rcases List.mem_cons.mp member with rfl | later
    · exact absurd first (by decide)
    · exact absurd (all _ later) (by decide)

theorem Token.dot_free {id : Token} (named : id.spellsName) :
    ∀ c ∈ id.value.toList, (c != '.') = true := by
  have token := Token.isToken (Token.spells.legible named)
  simp only [Token.spellsName, Token.spells, List.mem_singleton, Bool.and_eq_true,
    decide_eq_true_eq] at named
  rw [named.1] at token
  intro c member
  rw [bne_iff_ne]
  rintro rfl
  exact token.dot_free member

def Branch.line : Branch → String
  | .mk line _ => line

namespace Node

theorem line_branch (n : Node) : n.branch.line = n.heading := by
  cases n with
  | call id arguments block => cases block <;> rfl
  | _ => rfl

theorem name_no_space (n : Node) : ∀ c ∈ n.name.toList, (c != ' ') = true := by
  apply List.all_eq_true.mp
  cases n <;> simp only [name] <;> decide

/-- The first word of a line is the name of the node. -/
theorem takeWhile_heading (n : Node) :
    n.heading.toList.takeWhile (· != ' ') = n.name.toList := by
  rw [toList_heading, List.takeWhile_append_of_pos n.name_no_space]
  cases n <;> simp [detail]

/-- Branches with one line come from nodes of one name that tell the same. -/
theorem alike_of_branch {a b : Node} (same : a.branch = b.branch) :
    a.name = b.name ∧ a.detail = b.detail := by
  have heading : a.heading = b.heading := by rw [← line_branch, same, line_branch]
  have name : a.name = b.name := by
    rw [← String.toList_inj, ← takeWhile_heading, heading, takeWhile_heading]
  have lists := congrArg String.toList heading
  rw [toList_heading, toList_heading, name] at lists
  exact ⟨name, List.append_cancel_left lists⟩

theorem unplaced_of_detail {s t : Token} (legible : s.legible) (legible' : t.legible)
    (same : ' ' :: s.value.toList = ' ' :: t.value.toList) : s.unplaced = t.unplaced :=
  Token.unplaced_of_value legible legible' (String.toList_inj.mp (List.cons.inj same).2)

/-- The parentheses at the end of the line of a literal. -/
def kindMark (kind : TokenKind) : List Char := ' ' :: '(' :: kind.describe.toList ++ [')']

theorem kindMark_suffix : ∀ kind ∈ TokenKind.literals, ∀ other ∈ TokenKind.literals,
    kindMark kind <:+ kindMark other → kind = other := by decide

theorem unplaced_of_literal {s t : Token} (spelled : s.spells TokenKind.literals)
    (spelled' : t.spells TokenKind.literals) (same : (literal s).detail = (literal t).detail) :
    s.unplaced = t.unplaced := by
  simp only [Token.spells, Bool.and_eq_true, decide_eq_true_eq] at spelled spelled'
  have lines : s.value.toList ++ kindMark s.kind = t.value.toList ++ kindMark t.kind := by
    simpa [kindMark] using (List.cons.inj same).2
  have kind : s.kind = t.kind := by
    rcases List.append_eq_append_iff.mp lines with ⟨more, _, longer⟩ | ⟨more, _, longer⟩
    · exact (kindMark_suffix _ spelled'.1 _ spelled.1 ⟨more, longer.symm⟩).symm
    · exact kindMark_suffix _ spelled.1 _ spelled'.1 ⟨more, longer.symm⟩
  rw [kind] at lines
  exact Token.unplaced_of_value spelled.2 spelled'.2
    (String.toList_inj.mp (List.append_cancel_right lines))

/-- A dot stands between the two names and in none of them. -/
theorem unplaced_of_scope {id inner id' inner' : Token}
    (formed : (scopeAccess id inner).formsExpression)
    (formed' : (scopeAccess id' inner').formsExpression)
    (same : (scopeAccess id inner).detail = (scopeAccess id' inner').detail) :
    id.unplaced = id'.unplaced ∧ inner.unplaced = inner'.unplaced := by
  simp only [formsExpression, Bool.and_eq_true] at formed formed'
  have lines : id.value.toList ++ '.' :: inner.value.toList =
      id'.value.toList ++ '.' :: inner'.value.toList := (List.cons.inj same).2
  have first : id.value.toList = id'.value.toList := by
    have front := congrArg (List.takeWhile (· != '.')) lines
    rw [List.takeWhile_append_of_pos (Token.dot_free formed.1),
      List.takeWhile_append_of_pos (Token.dot_free formed'.1)] at front
    simpa using front
  rw [first] at lines
  have second := (List.cons.inj (List.append_cancel_left lines)).2
  exact ⟨Token.unplaced_of_value (Token.spells.legible formed.1) (Token.spells.legible formed'.1)
      (String.toList_inj.mp first),
    Token.unplaced_of_value (Token.spells.legible formed.2) (Token.spells.legible formed'.2)
      (String.toList_inj.mp second)⟩

end Node

end ShiFormat
