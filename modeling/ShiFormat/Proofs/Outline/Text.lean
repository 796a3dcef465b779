import ShiFormat.Proofs.Indentation.Blocks
import ShiFormat.Proofs.Outline.Branches

/-!
The text of an outline. Where no token goes over the end of a line, the lines of the outline are
those of its text, and a deeper outline has the same lines with more spaces before them.
-/
namespace ShiFormat

def Token.plain (t : Token) : Bool := t.value.toList.all (· != '\n')

namespace OutlineLine

/-- The line as it is written, up to the newline. -/
def row (l : OutlineLine) : List Char := List.replicate l.indent ' ' ++ l.text.toList

/-- The line that is written so. -/
def ofRow (row : List Char) : OutlineLine :=
  ⟨(row.takeWhile (· == ' ')).length, String.ofList (row.dropWhile (· == ' '))⟩

/-- A text on one line that starts with no space. -/
def solid (text : String) : Bool :=
  text.toList.all (· != '\n') && text.toList.head?.any (· != ' ')

theorem ofRow_row {l : OutlineLine} (h : solid l.text = true) : ofRow l.row = l := by
  obtain ⟨indent, text⟩ := l
  simp only [solid, Bool.and_eq_true, Option.any_eq_true] at h
  obtain ⟨_, c, first, other⟩ := h
  obtain ⟨more, split⟩ := List.head?_eq_some_iff.mp first
  have stop : (c == ' ') = false := by simpa using other
  have spaces : ∀ x ∈ List.replicate indent ' ', (x == ' ') = true := by simp
  have led : (List.replicate indent ' ' ++ text.toList).takeWhile (· == ' ') =
      List.replicate indent ' ' := by
    rw [List.takeWhile_append_of_pos spaces, split]
    simp [stop]
  have rest : (List.replicate indent ' ' ++ text.toList).dropWhile (· == ' ') = text.toList := by
    rw [List.dropWhile_append_of_pos spaces, split]
    simp [stop]
  rw [ofRow, row, led, rest, List.length_replicate, String.ofList_toList]

theorem row_deeper (n : Nat) (l : OutlineLine) :
    (l.deeper n).row = List.replicate n ' ' ++ l.row := by
  simp [row, deeper, ← List.replicate_append_replicate]

theorem single_row {l : OutlineLine} (h : solid l.text = true) : '\n' ∉ l.row := by
  simp only [solid, Bool.and_eq_true, List.all_eq_true] at h
  simp only [row, List.mem_append, List.mem_replicate, not_or]
  exact ⟨by simp, fun newline => by simpa using h.1 '\n' newline⟩

end OutlineLine

namespace Outline
open OutlineLine

theorem text_eq (lines : List OutlineLine) :
    text lines = String.ofList (Text.unlines (lines.map row)) := by
  rw [text, Text.unlines, List.flatMap_map]
  rfl

theorem lines_text {lines : List OutlineLine} (h : ∀ l ∈ lines, solid l.text = true) :
    Text.lines (text lines).toList = lines.map row := by
  rw [text_eq, String.toList_ofList, Text.lines_unlines]
  intro line member
  obtain ⟨l, listed, rfl⟩ := List.mem_map.mp member
  exact single_row (h l listed)

/-- The lines of an outline can be read off its text. -/
theorem lines_of_text {lines : List OutlineLine} (h : ∀ l ∈ lines, solid l.text = true) :
    (Text.lines (text lines).toList).map ofRow = lines := by
  have same : ∀ l ∈ lines, (ofRow ∘ row) l = l := fun l listed => ofRow_row (h l listed)
  rw [lines_text h, List.map_map, List.map_congr_left same, List.map_id']

theorem text_deeper {lines : List OutlineLine} (n : Nat) (h : ∀ l ∈ lines, solid l.text = true) :
    text (lines.map (deeper n)) = String.ofList (Text.unlines
      ((Text.lines (text lines).toList).map (List.replicate n ' ' ++ ·))) := by
  have rows : row ∘ deeper n = (List.replicate n ' ' ++ ·) ∘ row := funext (row_deeper n)
  rw [lines_text h, text_eq, List.map_map, List.map_map, rows]

/-- The bytes of an outline are those of its text. -/
theorem bytes_eq (lines : List OutlineLine) : bytes lines = (text lines).toUTF8.data.toList := by
  rw [text, String.toUTF8_eq_toByteArray, String.toByteArray_ofList, List.utf8Encode,
    List.toList_data_toByteArray, List.flatMap_assoc]
  rfl

theorem text_of_bytes {lines lines' : List OutlineLine} (same : bytes lines = bytes lines') :
    text lines = text lines' := by
  rw [bytes_eq, bytes_eq, Array.toList_inj] at same
  exact String.toByteArray_inj.mp (ByteArray.ext same)

end Outline

mutual

def Branch.all (test : String → Bool) : Branch → Bool
  | .mk line below => test line && allBranches test below

def allBranches (test : String → Bool) : List Branch → Bool
  | [] => true
  | branch :: more => branch.all test && allBranches test more

end

mutual

theorem Branch.all_lines {test : String → Bool} (indent : Nat) : (branch : Branch) →
    branch.all test = true → ∀ l ∈ branch.lines indent, test l.text = true
  | .mk line below, h => by
    simp only [Branch.all, Bool.and_eq_true] at h
    rw [Branch.lines, List.forall_mem_cons]
    exact ⟨h.1, allBranches_lines _ below h.2⟩

theorem allBranches_lines {test : String → Bool} (indent : Nat) : (branches : List Branch) →
    allBranches test branches = true → ∀ l ∈ linesOfAll indent branches, test l.text = true
  | [], _ => by simp [linesOfAll]
  | branch :: more, h => by
    simp only [allBranches, Bool.and_eq_true] at h
    rw [linesOfAll, List.forall_mem_append]
    exact ⟨branch.all_lines indent h.1, allBranches_lines indent more h.2⟩

end

open OutlineLine

theorem TokenKind.plain_describe (kind : TokenKind) :
    kind.describe.toList.all (· != '\n') = true := by
  cases kind <;> simp only [describe] <;> decide

namespace Node

theorem solid_name (n : Node) : solid n.name = true := by
  cases n <;> simp only [name] <;> decide

theorem plain_detail {n : Node} (plain : n.tokens.all Token.plain = true) :
    n.detail.all (· != '\n') = true := by
  cases n with
  | literal value =>
    have kind := value.kind.plain_describe
    simp_all [detail, tokens, Token.plain]
  | call id arguments block => cases block <;> simp_all [detail, tokens, Token.plain]
  | _ => simp_all [detail, tokens, Token.plain]

theorem solid_heading {n : Node} (plain : n.tokens.all Token.plain = true) :
    solid n.heading = true := by
  have name := n.solid_name
  have detail := plain_detail plain
  simp only [solid, Bool.and_eq_true, Option.any_eq_true] at name ⊢
  obtain ⟨name, c, first, other⟩ := name
  rw [toList_heading, List.all_append, name, detail, List.head?_append, first]
  exact ⟨rfl, c, rfl, other⟩

end Node

theorem solid_labels : solid "Index:" ∧ solid "Left value:" ∧ solid "Right value:" ∧
    solid "Arguments:" ∧ solid "Block:" ∧ solid "If:" ∧ solid "Then:" ∧ solid "Else:" ∧
    solid "Condition" := by decide

mutual

theorem Node.solid_branch : (n : Node) → n.tokens.all Token.plain = true →
    n.branch.all solid = true
  | .arrayAccess id index, plain => by
    have heading := Node.solid_heading plain
    simp only [Node.tokens, List.all_cons, Bool.and_eq_true] at plain
    simp [Node.branch, Branch.all, allBranches, heading, solid_labels, index.solid_branch plain.2]
  | .assignment op target value, plain => by
    have heading := Node.solid_heading plain
    simp only [Node.tokens, List.all_append, List.all_cons, Bool.and_eq_true] at plain
    simp [Node.branch, Branch.all, allBranches, heading, solid_labels,
      target.solid_branch plain.1, value.solid_branch plain.2.2]
  | .binaryOp op left right, plain => by
    have heading := Node.solid_heading plain
    simp only [Node.tokens, List.all_append, List.all_cons, Bool.and_eq_true] at plain
    simp [Node.branch, Branch.all, allBranches, heading, left.solid_branch plain.1,
      right.solid_branch plain.2.2]
  | .call id arguments none, plain => by
    have heading := Node.solid_heading plain
    simp only [Node.tokens, List.all_cons, Bool.and_eq_true] at plain
    simp [Node.branch, Branch.all, allBranches, heading, solid_labels,
      solid_branchesOfAll arguments plain.2]
  | .call id arguments (some body), plain => by
    have heading := Node.solid_heading plain
    simp only [Node.tokens, List.all_append, List.all_cons, Bool.and_eq_true] at plain
    simp [Node.branch, Branch.all, allBranches, heading, solid_labels,
      solid_branchesOfAll arguments plain.2.1, solid_branchesOfAll body plain.2.2]
  | .condition test body alternative, plain => by
    have heading := Node.solid_heading plain
    simp only [Node.tokens, List.all_append, Bool.and_eq_true] at plain
    simp [Node.branch, Branch.all, allBranches, heading, solid_labels,
      test.solid_branch plain.1.1, solid_branchesOfAll body plain.1.2,
      alternative.solid_branches plain.2]
  | .expressionList items, plain | .statementList items, plain => by
    have heading := Node.solid_heading plain
    simp only [Node.tokens] at plain
    simp [Node.branch, Branch.all, heading, solid_branchesOfAll items plain]
  | .notOp operand, plain => by
    have heading := Node.solid_heading plain
    simp only [Node.tokens] at plain
    simp [Node.branch, Branch.all, allBranches, heading, operand.solid_branch plain]
  | .identifier id, plain | .literal value, plain | .scopeAccess id inner, plain => by
    simp [Node.branch, Branch.all, allBranches, Node.solid_heading plain]

theorem Alternative.solid_branches : (alternative : Alternative) →
    alternative.tokens.all Token.plain = true → allBranches solid alternative.branches = true
  | .absent, _ => rfl
  | .elseIf test body alternative, plain => by
    simp only [Alternative.tokens, List.all_append, Bool.and_eq_true] at plain
    simp [Alternative.branches, Branch.all, allBranches, solid_labels,
      test.solid_branch plain.1.1, solid_branchesOfAll body plain.1.2,
      alternative.solid_branches plain.2]
  | .elseBlock body, plain => by
    simp only [Alternative.tokens] at plain
    simp [Alternative.branches, Branch.all, allBranches, solid_labels,
      solid_branchesOfAll body plain]

theorem solid_branchesOfAll : (nodes : List Node) → (tokensOfAll nodes).all Token.plain = true →
    allBranches solid (branchesOfAll nodes) = true
  | [], _ => rfl
  | node :: more, plain => by
    simp only [tokensOfAll, List.all_append, Bool.and_eq_true] at plain
    simp [branchesOfAll, allBranches, node.solid_branch plain.1, solid_branchesOfAll more plain.2]

end

/-- The lines of an outline start with no space and end where they are written to an end, if no
token goes on in another line. -/
theorem Node.solid_outline {n : Node} (plain : n.tokens.all Token.plain = true) (indent : Nat) :
    ∀ l ∈ n.outline indent, solid l.text = true := by
  rw [outline_eq]
  exact n.branch.all_lines indent (n.solid_branch plain)

/-- Deeper, the outline of a tree has the same lines. -/
theorem Node.outline_deeper (n : Node) (indent : Nat) :
    n.outline indent = (n.outline 0).map (deeper indent) := by
  rw [outline_eq, outline_eq, ← Branch.lines_deeper, Nat.add_zero]

end ShiFormat
