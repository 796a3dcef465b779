import ShiFormat.Parser
import ShiFormat.Proofs.Grammar

/-!
The grammar derives nothing from comments or ends of input, so the parser passes over no token of a
derivation.
-/
namespace ShiFormat.Grammar
open ShiFormat.Parser

theorem kept_of_kind {t : Token} {kind : TokenKind} (same : t.kind = kind)
    (solid : (kind != .comment && kind != .endOfInput) = true) : isKept t := by
  rw [isKept, same, solid]

theorem kept_of_member {t : Token} {kinds : List TokenKind} (member : t.kind ∈ kinds)
    (solid : (kinds.all fun kind => kind != .comment && kind != .endOfInput) = true) :
    isKept t := kept_of_kind rfl (List.all_eq_true.mp solid t.kind member)

theorem kept_operator {op : Token} {p : Nat} (precedence : op.kind.binaryPrecedence? = some p) :
    isKept op := by
  cases kind : op.kind <;> simp_all [isKept, TokenKind.binaryPrecedence?]

theorem kept_enclosed {opening closing : Token} {ts : List Token} (first : isKept opening)
    (inside : ∀ t ∈ ts, isKept t) (last : isKept closing) :
    ∀ t ∈ opening :: (ts ++ [closing]), isKept t := by
  simp only [List.forall_mem_cons, List.forall_mem_append]
  exact ⟨first, inside, last, List.forall_mem_nil _⟩

theorem kept_named {id : Token} {ts : List Token} (named : id.kind = .identifier)
    (others : ∀ t ∈ ts, isKept t) : ∀ t ∈ id :: ts, isKept t :=
  List.forall_mem_cons.mpr ⟨kept_of_kind named rfl, others⟩

mutual

theorem Primary.kept {d : Nat} {ts : List Token} {node : Node} : Primary d ts node →
    ∀ t ∈ ts, isKept t
  | .literal kind => List.forall_mem_singleton.mpr (kept_of_member kind rfl)
  | .identifier kind => List.forall_mem_singleton.mpr (kept_of_kind kind rfl)
  | .arrayAccess kind opens inside closes =>
    kept_named kind (kept_enclosed (kept_of_kind opens rfl) inside.kept (kept_of_kind closes rfl))
  | .scopeAccess kind dotted member => by
    simp only [List.forall_mem_cons]
    exact ⟨kept_of_kind kind rfl, kept_of_kind dotted rfl, kept_of_kind member rfl,
      List.forall_mem_nil _⟩
  | .call head => head.kept
  | .parenthesized opens inside closes =>
    kept_enclosed (kept_of_kind opens rfl) inside.kept (kept_of_kind closes rfl)
  | .bracketed opens inside closes =>
    kept_enclosed (kept_of_kind opens rfl) inside.kept (kept_of_kind closes rfl)

theorem CallHead.kept {d : Nat} {ts : List Token} {id : Token} {arguments : List Node} :
    CallHead d ts id arguments → ∀ t ∈ ts, isKept t
  | .applied kind opens inside closes =>
    kept_named kind (kept_enclosed (kept_of_kind opens rfl) inside.kept (kept_of_kind closes rfl))

theorem Items.kept {d : Nat} {ts : List Token} {items : List Node} : Items d ts items →
    ∀ t ∈ ts, isKept t
  | .nil => List.forall_mem_nil _
  | .last first => first.kept
  | .cons first separated others => by
    rw [List.forall_mem_append, List.forall_mem_cons]
    exact ⟨first.kept, kept_of_kind separated rfl, others.kept⟩

theorem Chain.kept {m d : Nat} {ceiling : Option Nat} {ts : List Token} {node : Node} :
    Chain m ceiling d ts node → ∀ t ∈ ts, isKept t
  | .primary operand => operand.kept
  | .operator before precedence _ _ operand => by
    rw [List.forall_mem_append, List.forall_mem_cons]
    exact ⟨before.kept, kept_operator precedence, operand.kept⟩

theorem Expression.kept {m d : Nat} {ts : List Token} {node : Node} : Expression m d ts node →
    ∀ t ∈ ts, isKept t
  | .negation kind inside => List.forall_mem_cons.mpr ⟨kept_of_kind kind rfl, inside.kept⟩
  | .chain operands => operands.kept

end

mutual

theorem Block.kept {d : Nat} {ts : List Token} {body : List Node} : Block d ts body →
    ∀ t ∈ ts, isKept t
  | .braced opens inside closes =>
    kept_enclosed (kept_of_kind opens rfl) inside.kept (kept_of_kind closes rfl)

theorem Statements.kept {d : Nat} {ts : List Token} {body : List Node} : Statements d ts body →
    ∀ t ∈ ts, isKept t
  | .nil => List.forall_mem_nil _
  | .cons first others => List.forall_mem_append.mpr ⟨first.kept, others.kept⟩

theorem Statement.kept {d : Nat} {ts : List Token} {statement : Node} :
    Statement d ts statement → ∀ t ∈ ts, isKept t
  | .assignment kind assigns right =>
    kept_named kind (List.forall_mem_cons.mpr ⟨kept_of_member assigns rfl, right.kept⟩)
  | .call head => head.kept
  | .callBlock head block => List.forall_mem_append.mpr ⟨head.kept, block.kept⟩
  | .condition guarded otherwise => List.forall_mem_append.mpr ⟨guarded.kept, otherwise.kept⟩

theorem Guarded.kept {d : Nat} {ts : List Token} {test : Node} {body : List Node} :
    Guarded d ts test body → ∀ t ∈ ts, isKept t
  | .guarded kind opens inside closes block => by
    simp only [List.forall_mem_cons, List.forall_mem_append]
    exact ⟨kept_of_kind kind rfl, kept_of_kind opens rfl, inside.kept, kept_of_kind closes rfl,
      block.kept⟩

theorem Otherwise.kept {d : Nat} {ts : List Token} {alternative : Alternative} :
    Otherwise d ts alternative → ∀ t ∈ ts, isKept t
  | .absent => List.forall_mem_nil _
  | .elseIf kind guarded otherwise => by
    simp only [List.forall_mem_cons, List.forall_mem_append]
    exact ⟨kept_of_kind kind rfl, guarded.kept, otherwise.kept⟩
  | .elseBlock kind block => List.forall_mem_cons.mpr ⟨kept_of_kind kind rfl, block.kept⟩

end

end ShiFormat.Grammar
