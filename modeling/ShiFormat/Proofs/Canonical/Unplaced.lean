import Mathlib.Data.Setoid.Basic
import ShiFormat.Outline
import ShiFormat.Proofs.Faultless.Writer
import ShiFormat.Proofs.Order.Locations

/-!
Equivalence is equality but for the places of the tokens. What is written, told and outlined of a
tree does not depend on these places, so equivalent trees have it in common.
-/
namespace ShiFormat

namespace Token

@[simp] theorem unplaced_value (t : Token) : t.unplaced.value = t.value := rfl

/-- What makes two tokens equal: the steps of a path count, and not how they are spelled. -/
def key (t : Token) : TokenKind × String × Option (List Path.Step) × Nat × Nat :=
  (t.kind, t.value, t.location.file.map Path.steps, t.location.line, t.location.column)

theorem beq_iff_key {s t : Token} : (s == t) = true ↔ s.key = t.key := by
  show (s.kind == t.kind && s.value == t.value && s.location == t.location) = true ↔ _
  simp [key, Location.beq_iff, and_assoc]

/-- One token for all that are equal to a token. -/
noncomputable def chosen (t : Token) : Token := (Quotient.mk (Setoid.ker key) t).out

theorem key_chosen (t : Token) : t.chosen.key = t.key := Quotient.mk_out (s := Setoid.ker key) t

theorem beq_iff_chosen (s t : Token) : (s == t) = true ↔ s.chosen = t.chosen := by
  rw [beq_iff_key]
  constructor
  · intro same
    rw [chosen, chosen, Quotient.sound same]
  · intro same
    rw [← key_chosen s, same, key_chosen]

theorem unplaced_chosen (t : Token) : t.chosen.unplaced = t.unplaced := by
  have same := key_chosen t
  simp only [key, Prod.mk.injEq] at same
  simp [unplaced, same]

end Token

namespace Node

theorem beq_iff_chosen (a b : Node) :
    (a == b) = true ↔ a.mapTokens Token.chosen = b.mapTokens Token.chosen :=
  agrees_iff Token.beq_iff_chosen a b

theorem unplaced_eq (n : Node) : n.unplaced = n.mapTokens Token.unplaced := rfl

theorem unplaced_unplaced (n : Node) : n.unplaced.unplaced = n.unplaced := by
  have twice : Token.unplaced ∘ Token.unplaced = Token.unplaced := rfl
  rw [unplaced_eq, unplaced_eq, mapTokens_mapTokens, twice]

theorem unplaced_eq_of_beq {a b : Node} (same : (a == b) = true) : a.unplaced = b.unplaced := by
  have chosen : Token.unplaced ∘ Token.chosen = Token.unplaced := funext Token.unplaced_chosen
  have mapped := congrArg (mapTokens Token.unplaced) ((beq_iff_chosen a b).mp same)
  rwa [mapTokens_mapTokens, mapTokens_mapTokens, chosen] at mapped

end Node

mutual

theorem Node.outline_unplaced (indent : Nat) : (n : Node) →
    (n.mapTokens Token.unplaced).outline indent = n.outline indent
  | .arrayAccess id index => by
    simp only [Node.mapTokens, Node.outline, Token.unplaced_value, index.outline_unplaced]
  | .assignment op target value => by
    simp only [Node.mapTokens, Node.outline, Token.unplaced_value, target.outline_unplaced,
      value.outline_unplaced]
  | .binaryOp op left right => by
    simp only [Node.mapTokens, Node.outline, Token.unplaced_value, left.outline_unplaced,
      right.outline_unplaced]
  | .call id arguments none => by
    simp only [Node.mapTokens, Node.outline, Token.unplaced_value,
      outlineOfAll_unplaced _ arguments]
  | .call id arguments (some body) => by
    simp only [Node.mapTokens, Node.outline, Token.unplaced_value,
      outlineOfAll_unplaced _ arguments, outlineOfAll_unplaced _ body]
  | .condition test body alternative => by
    simp only [Node.mapTokens, Node.outline, test.outline_unplaced, outlineOfAll_unplaced _ body,
      alternative.outline_unplaced]
  | .expressionList items | .statementList items => by
    simp only [Node.mapTokens, Node.outline, outlineOfAll_unplaced _ items]
  | .notOp operand => by
    simp only [Node.mapTokens, Node.outline, operand.outline_unplaced]
  | .identifier _ | .literal _ | .scopeAccess .. => rfl

theorem Alternative.outline_unplaced (indent : Nat) : (alternative : Alternative) →
    (alternative.mapTokens Token.unplaced).outline indent = alternative.outline indent
  | .absent => rfl
  | .elseIf test body alternative => by
    simp only [Alternative.mapTokens, Alternative.outline, test.outline_unplaced,
      outlineOfAll_unplaced _ body, alternative.outline_unplaced]
  | .elseBlock body => by
    simp only [Alternative.mapTokens, Alternative.outline, outlineOfAll_unplaced _ body]

theorem outlineOfAll_unplaced (indent : Nat) : (nodes : List Node) →
    outlineOfAll indent (mapTokensOfAll Token.unplaced nodes) = outlineOfAll indent nodes
  | [] => rfl
  | node :: more => by
    simp only [mapTokensOfAll, outlineOfAll, node.outline_unplaced, outlineOfAll_unplaced _ more]

end

namespace Node

theorem print_unplaced (p : OutlinePrinter) (limit : Option Nat) (n : Node) :
    p.print limit n.unplaced = p.print limit n := by
  simp only [OutlinePrinter.print, unplaced_eq, outline_unplaced]

theorem checked_format_unplaced (width : Nat) (n : Node) :
    Checked.format width n.unplaced = Checked.format width n := by
  have written : n.unplaced.format width = n.format width := format_unplaced n width
  have padded : n.unplaced.overpadded width = n.overpadded width := by
    rw [overpadded, overpadded, unplaced_eq, layout_unplaced]
  rw [Checked.format, Checked.format, padded, written]

end Node

/-- Two trees are equivalent if and only if they are equal once no token stands anywhere. This is an
equivalence, equal trees are in it, and what is written, told and outlined of equivalent trees is
the same, down to the fault with which a run ends and to the bytes that a sink takes. -/
theorem equivalence_up_to_places :
    (∀ a b : Node, a.equivalent b = true ↔ a.unplaced = b.unplaced) ∧
      (∀ a b : Node, (a.unplaced == b.unplaced) = a.equivalent b) ∧
      Equivalence (fun a b : Node => a.equivalent b = true) ∧
      (∀ a b : Node, (a == b) = true → a.equivalent b = true) ∧
      ∀ a b : Node, a.equivalent b = true →
        (∀ width, Checked.format width a = Checked.format width b ∧
          a.format width = b.format width ∧ (a.format width).events = (b.format width).events) ∧
        ∀ (p : OutlinePrinter) (limit : Option Nat), p.print limit a = p.print limit b := by
  have equivalent_iff (a b : Node) : a.equivalent b = true ↔ a.unplaced = b.unplaced :=
    a.equivalent_iff_unplaced b
  refine ⟨equivalent_iff, ?_, ⟨?_, ?_, ?_⟩, ?_, ?_⟩
  · intro a b
    rw [Bool.eq_iff_iff, equivalent_iff]
    constructor
    · intro equal
      have unplaced := Node.unplaced_eq_of_beq equal
      rwa [Node.unplaced_unplaced, Node.unplaced_unplaced] at unplaced
    · intro same
      rw [same]
      exact (Node.beq_iff_chosen _ _).mpr rfl
  · intro a
    exact (equivalent_iff a a).mpr rfl
  · intro a b same
    exact (equivalent_iff b a).mpr ((equivalent_iff a b).mp same).symm
  · intro a b c first second
    have middle := (equivalent_iff a b).mp first
    exact (equivalent_iff a c).mpr (middle.trans ((equivalent_iff b c).mp second))
  · intro a b equal
    exact (equivalent_iff a b).mpr (Node.unplaced_eq_of_beq equal)
  · intro a b same
    have unplaced := (equivalent_iff a b).mp same
    refine ⟨fun width => ?_, fun p limit => ?_⟩
    · have written : a.format width = b.format width := Node.format_of_unplaced unplaced width
      refine ⟨?_, written, by rw [written]⟩
      rw [← Node.checked_format_unplaced, unplaced, Node.checked_format_unplaced]
    · rw [← Node.print_unplaced, unplaced, Node.print_unplaced]

/-- `!a , f() { }` twice on a line, where a comma has no precedence: both are refused alike. -/
theorem equivalence_up_to_places_unranked :
    let token kind value column : Token := ⟨kind, value, ⟨some ⟨"BUILD.shi"⟩, 1, column⟩⟩
    let tree column := Node.binaryOp (token .comma "," (column + 3))
      (.notOp (.identifier (token .identifier "a" (column + 1))))
      (.call (token .identifier "f" (column + 5)) [] (some []))
    (tree 1).equivalent (tree 20) = true ∧ ((tree 1) == (tree 20)) = false ∧
      (tree 20).equivalent (tree 1) = true ∧
      Checked.format 2 (tree 20) = Checked.fault (.unranked .comma) ∧
      OutlinePrinter.fresh.print (some 9) (tree 1) =
        OutlinePrinter.fresh.print (some 9) (tree 20) := by
  intro token tree
  obtain ⟨equivalent_iff, _, equivalence, _, alike⟩ := equivalence_up_to_places
  have same : (tree 1).equivalent (tree 20) = true := (equivalent_iff _ _).mpr rfl
  obtain ⟨written, printed⟩ := alike (tree 1) (tree 20) same
  refine ⟨same, by decide, equivalence.symm same, ?_, printed OutlinePrinter.fresh (some 9)⟩
  rw [← (written 2).1]
  rfl

end ShiFormat
