import ShiFormat.Proofs.Parsing.Stored
import ShiFormat.Proofs.Canonical.Positions

/-!
The tree of an accepted token list has each of its nodes where it belongs. Where the tokens are read
from a text, the tree is well-formed.
-/
namespace ShiFormat
open Node

namespace Grammar

mutual

theorem Primary.fits {d : Nat} {ts : List Token} {node : Node} : Primary d ts node →
    node.fits .expression ∧ allFit node.parts
  | .literal kind => ⟨decide_eq_true kind, rfl⟩
  | .identifier kind => ⟨decide_eq_true kind, rfl⟩
  | .arrayAccess kind _ inside _ => ⟨decide_eq_true kind, by simp [parts, inside.fits]⟩
  | .scopeAccess kind _ member => ⟨by simp [Node.fits, kind, member], rfl⟩
  | .call head => ⟨decide_eq_true head.fits.1, head.fits.2⟩
  | .parenthesized _ inside _ => inside.fits
  | .bracketed _ inside _ => ⟨rfl, inside.fits⟩

theorem CallHead.fits {d : Nat} {ts : List Token} {id : Token} {arguments : List Node} :
    CallHead d ts id arguments →
      id.kind = .identifier ∧ allFit (partsOfAll .expression arguments)
  | .applied kind _ inside _ => ⟨kind, inside.fits⟩

theorem Items.fits {d : Nat} {ts : List Token} {items : List Node} : Items d ts items →
    allFit (partsOfAll .expression items)
  | .nil => rfl
  | .last first => by simp [partsOfAll, first.fits]
  | .cons first _ others => by simp [partsOfAll, first.fits, others.fits]

theorem Chain.fits {m d : Nat} {ceiling : Option Nat} {ts : List Token} {node : Node} :
    Chain m ceiling d ts node → node.fits .expression ∧ allFit node.parts
  | .primary operand => operand.fits
  | .operator before precedence _ _ operand => 
    ⟨by simp [Node.fits, precedence], by simp [parts, before.fits, operand.fits]⟩

theorem Expression.fits {m d : Nat} {ts : List Token} {node : Node} : Expression m d ts node →
    node.fits .expression ∧ allFit node.parts
  | .negation _ inside => ⟨rfl, by simp [parts, inside.fits]⟩
  | .chain operands => operands.fits

end

mutual

theorem Block.fits {d : Nat} {ts : List Token} {body : List Node} : Block d ts body →
    allFit (partsOfAll .statement body)
  | .braced _ inside _ => inside.fits

theorem Statements.fits {d : Nat} {ts : List Token} {body : List Node} : Statements d ts body →
    allFit (partsOfAll .statement body)
  | .nil => rfl
  | .cons first others => by simp [partsOfAll, first.fits, others.fits]

theorem Statement.fits {d : Nat} {ts : List Token} {statement : Node} :
    Statement d ts statement → statement.fits .statement ∧ allFit statement.parts
  | .assignment kind assigns right => by
    have target := (Primary.identifier kind).fits
    exact ⟨by simp [Node.fits, kind, assigns], by simp [parts, target, right.fits]⟩
  | .call head => ⟨decide_eq_true head.fits.1, head.fits.2⟩
  | .callBlock head block =>
    ⟨decide_eq_true head.fits.1, by simp [parts, head.fits, block.fits]⟩
  | .condition guarded otherwise => ⟨rfl, by simp [parts, guarded.fits, otherwise.fits]⟩

theorem Guarded.fits {d : Nat} {ts : List Token} {test : Node} {body : List Node} :
    Guarded d ts test body →
      (test.fits .expression ∧ allFit test.parts) ∧ allFit (partsOfAll .statement body)
  | .guarded _ _ inside _ block => ⟨inside.fits, block.fits⟩

theorem Otherwise.fits {d : Nat} {ts : List Token} {alternative : Alternative} :
    Otherwise d ts alternative → allFit alternative.parts
  | .absent => rfl
  | .elseIf _ guarded otherwise => by simp [Alternative.parts, guarded.fits, otherwise.fits]
  | .elseBlock _ block => block.fits

end

theorem legible_inside {opening closing : Token} {ts : List Token}
    (legible : ∀ t ∈ opening :: (ts ++ [closing]), t.legible) : ∀ t ∈ ts, t.legible := by
  intro t member
  exact legible t (List.mem_cons_of_mem _ (List.mem_append_left _ member))

theorem legible_tail {first : Token} {ts : List Token} (legible : ∀ t ∈ first :: ts, t.legible) :
    ∀ t ∈ ts, t.legible := fun t member => legible t (List.mem_cons_of_mem _ member)

theorem legible_stored {ts : List Token} (legible : ∀ t ∈ ts, t.legible) :
    (storedTokens ts).all Token.legible :=
  List.all_eq_true.mpr fun t member => legible t ((List.mem_filter.mp member).1)

theorem Chain.formed {m d : Nat} {ceiling : Option Nat} {ts : List Token} {node : Node}
    (h : Chain m ceiling d ts node) (legible : ∀ t ∈ ts, t.legible) : node.formsExpression := by
  simp [formsExpression_eq, h.fits, h.stored, legible_stored legible]

theorem Statements.formed {d : Nat} {ts : List Token} {body : List Node}
    (h : Statements d ts body) (legible : ∀ t ∈ ts, t.legible) : allStatements body := by
  simp [allStatements_eq, h.fits, h.stored, legible_stored legible]

end Grammar

theorem keptTokens_legible (path : Path) (text : String) :
    ∀ t ∈ keptTokens path text, t.legible := by
  unfold keptTokens
  cases read : tokenize path text with
  | error cause => simp
  | ok tokens =>
    intro t member
    have kept := List.mem_filter.mp member
    refine legible_of_tokensFrom read t kept.1 ?_
    intro sentinel
    simp [Parser.isKept, sentinel] at kept

/-- What the lexer yields is legible, so the tree of an accepted text can be written and read. -/
theorem wellFormed_of_parse {path : Path} {text : String} {tree : Node}
    (accepted : parse path text = .ok tree) : tree.wellFormed := by
  obtain ⟨d, _, body, derived, rfl⟩ := derived_of_parse accepted
  exact derived.formed (keptTokens_legible path text)

end ShiFormat
