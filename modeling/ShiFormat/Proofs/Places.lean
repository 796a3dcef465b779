import ShiFormat.Layout
import ShiFormat.Proofs.Grammar
import ShiFormat.Proofs.Lexing.Reading

/-!
Where tokens stand makes no difference to the grammar, to the layout of a tree or to equivalence.
-/
namespace ShiFormat

namespace Grammar
open Token

@[simp] theorem startsWith_unplaced (kind : TokenKind) (ts : List Token) :
    startsWith kind (ts.map unplaced) = startsWith kind ts := by
  cases ts <;> rfl

@[simp] theorem ceilingAfter_unplaced (p : Nat) (ts : List Token) :
    ceilingAfter p (ts.map unplaced) = ceilingAfter p ts := by
  simp [ceilingAfter]

theorem map_eq_enclosed {f : Token → Token} {ts us : List Token} {opening closing : Token}
    (same : ts.map f = opening :: (us ++ [closing])) :
    ∃ o inside c, ts = o :: (inside ++ [c]) ∧ f o = opening ∧ f c = closing ∧
      inside.map f = us := by
  obtain ⟨o, rest, rfl, first, same⟩ := List.map_eq_cons_iff.mp same
  obtain ⟨inside, last, rfl, middle, same⟩ := List.map_eq_append_iff.mp same
  obtain ⟨c, rest, rfl, final, same⟩ := List.map_eq_cons_iff.mp same
  obtain rfl := List.map_eq_nil_iff.mp same
  exact ⟨o, inside, c, rfl, first, final, middle⟩

mutual

theorem Primary.placed {d : Nat} {us : List Token} {node : Node} : Primary d us node →
    ∀ ts, ts.map unplaced = us → ∃ placed, Primary d ts placed ∧ placed.mapTokens unplaced = node
  | .literal kind => by
    intro ts same
    obtain ⟨value, rest, rfl, rfl, later⟩ := List.map_eq_cons_iff.mp same
    obtain rfl := List.map_eq_nil_iff.mp later
    exact ⟨_, .literal kind, rfl⟩
  | .identifier kind => by
    intro ts same
    obtain ⟨id, rest, rfl, rfl, later⟩ := List.map_eq_cons_iff.mp same
    obtain rfl := List.map_eq_nil_iff.mp later
    exact ⟨_, .identifier kind, rfl⟩
  | .arrayAccess kind opens inside closes => by
    intro ts same
    obtain ⟨id, rest, rfl, rfl, later⟩ := List.map_eq_cons_iff.mp same
    obtain ⟨o, middle, c, rfl, rfl, rfl, tail⟩ := map_eq_enclosed later
    obtain ⟨index, derived, rfl⟩ := inside.placed middle tail
    exact ⟨_, .arrayAccess kind opens derived closes, rfl⟩
  | .scopeAccess kind dotted member => by
    intro ts same
    obtain ⟨id, rest, rfl, rfl, later⟩ := List.map_eq_cons_iff.mp same
    obtain ⟨dot, rest, rfl, rfl, tail⟩ := List.map_eq_cons_iff.mp later
    obtain ⟨inner, rest, rfl, rfl, last⟩ := List.map_eq_cons_iff.mp tail
    obtain rfl := List.map_eq_nil_iff.mp last
    exact ⟨_, .scopeAccess kind dotted member, rfl⟩
  | .call head => by
    intro ts same
    obtain ⟨id, arguments, derived, rfl, rfl⟩ := head.placed ts same
    exact ⟨_, .call derived, rfl⟩
  | .parenthesized opens inside closes => by
    intro ts same
    obtain ⟨o, middle, c, rfl, rfl, rfl, later⟩ := map_eq_enclosed same
    obtain ⟨inner, derived, rfl⟩ := inside.placed middle later
    exact ⟨_, .parenthesized opens derived closes, rfl⟩
  | .bracketed opens inside closes => by
    intro ts same
    obtain ⟨o, middle, c, rfl, rfl, rfl, later⟩ := map_eq_enclosed same
    obtain ⟨items, derived, rfl⟩ := inside.placed middle later
    exact ⟨_, .bracketed opens derived closes, rfl⟩

theorem CallHead.placed {d : Nat} {us : List Token} {id : Token} {arguments : List Node} :
    CallHead d us id arguments → ∀ ts, ts.map unplaced = us → ∃ name placed,
      CallHead d ts name placed ∧ name.unplaced = id ∧ mapTokensOfAll unplaced placed = arguments
  | .applied kind opens inside closes => by
    intro ts same
    obtain ⟨id, rest, rfl, rfl, later⟩ := List.map_eq_cons_iff.mp same
    obtain ⟨o, middle, c, rfl, rfl, rfl, tail⟩ := map_eq_enclosed later
    obtain ⟨arguments, derived, rfl⟩ := inside.placed middle tail
    exact ⟨_, _, .applied kind opens derived closes, rfl, rfl⟩

theorem Items.placed {d : Nat} {us : List Token} {items : List Node} : Items d us items →
    ∀ ts, ts.map unplaced = us →
      ∃ placed, Items d ts placed ∧ mapTokensOfAll unplaced placed = items
  | .nil => by
    intro ts same
    obtain rfl := List.map_eq_nil_iff.mp same
    exact ⟨_, .nil, rfl⟩
  | .last first => by
    intro ts same
    obtain ⟨item, derived, rfl⟩ := first.placed ts same
    exact ⟨_, .last derived, rfl⟩
  | .cons first separated others => by
    intro ts same
    obtain ⟨before, rest, rfl, same_first, later⟩ := List.map_eq_append_iff.mp same
    obtain ⟨comma, after, rfl, rfl, tail⟩ := List.map_eq_cons_iff.mp later
    obtain ⟨item, derived, rfl⟩ := first.placed before same_first
    obtain ⟨more, derived_more, rfl⟩ := others.placed after tail
    exact ⟨_, .cons derived separated derived_more, rfl⟩

theorem Chain.placed {m d : Nat} {ceiling : Option Nat} {us : List Token} {node : Node} :
    Chain m ceiling d us node → ∀ ts, ts.map unplaced = us →
      ∃ placed, Chain m ceiling d ts placed ∧ placed.mapTokens unplaced = node
  | .primary operand => by
    intro ts same
    obtain ⟨node, derived, rfl⟩ := operand.placed ts same
    exact ⟨_, .primary derived, rfl⟩
  | .operator before precedence tighter below operand => by
    intro ts same
    obtain ⟨first, rest, rfl, same_first, later⟩ := List.map_eq_append_iff.mp same
    obtain ⟨op, second, rfl, rfl, tail⟩ := List.map_eq_cons_iff.mp later
    obtain ⟨left, derived_left, rfl⟩ := before.placed first same_first
    obtain ⟨right, derived_right, rfl⟩ := operand.placed second tail
    rw [← tail, ceilingAfter_unplaced]
    exact ⟨_, .operator derived_left precedence tighter below derived_right, rfl⟩

theorem Expression.placed {m d : Nat} {us : List Token} {node : Node} : Expression m d us node →
    ∀ ts, ts.map unplaced = us →
      ∃ placed, Expression m d ts placed ∧ placed.mapTokens unplaced = node
  | .negation kind inside => by
    intro ts same
    obtain ⟨bang, rest, rfl, rfl, later⟩ := List.map_eq_cons_iff.mp same
    obtain ⟨operand, derived, rfl⟩ := inside.placed rest later
    exact ⟨_, .negation kind derived, rfl⟩
  | .chain operands => by
    intro ts same
    obtain ⟨node, derived, rfl⟩ := operands.placed ts same
    exact ⟨_, .chain derived, rfl⟩

end

mutual

theorem Block.placed {d : Nat} {us : List Token} {body : List Node} : Block d us body →
    ∀ ts, ts.map unplaced = us → ∃ placed, Block d ts placed ∧ mapTokensOfAll unplaced placed = body
  | .braced opens inside closes => by
    intro ts same
    obtain ⟨o, middle, c, rfl, rfl, rfl, later⟩ := map_eq_enclosed same
    obtain ⟨body, derived, rfl⟩ := inside.placed middle later
    exact ⟨_, .braced opens derived closes, rfl⟩

theorem Statements.placed {d : Nat} {us : List Token} {body : List Node} : Statements d us body →
    ∀ ts, ts.map unplaced = us →
      ∃ placed, Statements d ts placed ∧ mapTokensOfAll unplaced placed = body
  | .nil => by
    intro ts same
    obtain rfl := List.map_eq_nil_iff.mp same
    exact ⟨_, .nil, rfl⟩
  | .cons first others => by
    intro ts same
    obtain ⟨before, after, rfl, same_first, later⟩ := List.map_eq_append_iff.mp same
    obtain ⟨statement, derived, rfl⟩ := first.placed before same_first
    obtain ⟨more, derived_more, rfl⟩ := others.placed after later
    exact ⟨_, .cons derived derived_more, rfl⟩

theorem Statement.placed {d : Nat} {us : List Token} {statement : Node} : Statement d us statement →
    ∀ ts, ts.map unplaced = us →
      ∃ placed, Statement d ts placed ∧ placed.mapTokens unplaced = statement
  | .assignment kind assigns right => by
    intro ts same
    obtain ⟨id, rest, rfl, rfl, later⟩ := List.map_eq_cons_iff.mp same
    obtain ⟨op, rest, rfl, rfl, tail⟩ := List.map_eq_cons_iff.mp later
    obtain ⟨value, derived, rfl⟩ := right.placed rest tail
    exact ⟨_, .assignment kind assigns derived, rfl⟩
  | .call head => by
    intro ts same
    obtain ⟨id, arguments, derived, rfl, rfl⟩ := head.placed ts same
    exact ⟨_, .call derived, rfl⟩
  | .callBlock head block => by
    intro ts same
    obtain ⟨first, rest, rfl, same_first, later⟩ := List.map_eq_append_iff.mp same
    obtain ⟨id, arguments, derived, rfl, rfl⟩ := head.placed first same_first
    obtain ⟨body, derived_block, rfl⟩ := block.placed rest later
    exact ⟨_, .callBlock derived derived_block, rfl⟩
  | .condition guarded otherwise => by
    intro ts same
    obtain ⟨first, rest, rfl, same_first, later⟩ := List.map_eq_append_iff.mp same
    obtain ⟨test, body, derived, rfl, rfl⟩ := guarded.placed first same_first
    obtain ⟨alternative, derived_otherwise, rfl⟩ := otherwise.placed rest later
    exact ⟨_, .condition derived derived_otherwise, rfl⟩

theorem Guarded.placed {d : Nat} {us : List Token} {test : Node} {body : List Node} :
    Guarded d us test body → ∀ ts, ts.map unplaced = us → ∃ condition block,
      Guarded d ts condition block ∧ condition.mapTokens unplaced = test ∧
        mapTokensOfAll unplaced block = body
  | .guarded kind opens inside closes block => by
    intro ts same
    obtain ⟨word, rest, rfl, rfl, later⟩ := List.map_eq_cons_iff.mp same
    obtain ⟨opening, rest, rfl, rfl, tail⟩ := List.map_eq_cons_iff.mp later
    obtain ⟨middle, rest, rfl, same_middle, last⟩ := List.map_eq_append_iff.mp tail
    obtain ⟨closing, braces, rfl, rfl, final⟩ := List.map_eq_cons_iff.mp last
    obtain ⟨test, derived, rfl⟩ := inside.placed middle same_middle
    obtain ⟨body, derived_block, rfl⟩ := block.placed braces final
    exact ⟨_, _, .guarded kind opens derived closes derived_block, rfl, rfl⟩

theorem Otherwise.placed {d : Nat} {us : List Token} {alternative : Alternative} :
    Otherwise d us alternative → ∀ ts, ts.map unplaced = us →
      ∃ placed, Otherwise d ts placed ∧ placed.mapTokens unplaced = alternative
  | .absent => by
    intro ts same
    obtain rfl := List.map_eq_nil_iff.mp same
    exact ⟨_, .absent, rfl⟩
  | .elseIf kind guarded otherwise => by
    intro ts same
    obtain ⟨word, rest, rfl, rfl, later⟩ := List.map_eq_cons_iff.mp same
    obtain ⟨first, rest, rfl, same_first, tail⟩ := List.map_eq_append_iff.mp later
    obtain ⟨test, body, derived, rfl, rfl⟩ := guarded.placed first same_first
    obtain ⟨alternative, derived_otherwise, rfl⟩ := otherwise.placed rest tail
    exact ⟨_, .elseIf kind derived derived_otherwise, rfl⟩
  | .elseBlock kind block => by
    intro ts same
    obtain ⟨word, rest, rfl, rfl, later⟩ := List.map_eq_cons_iff.mp same
    obtain ⟨body, derived, rfl⟩ := block.placed rest later
    exact ⟨_, .elseBlock kind derived, rfl⟩

end

end Grammar
end ShiFormat
