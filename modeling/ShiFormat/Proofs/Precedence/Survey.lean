import Mathlib.Data.List.Chain
import ShiFormat.Proofs.Canonical.WellFormed
import ShiFormat.Proofs.Parsing.Expression
import ShiFormat.Proofs.Precedence.Order
import ShiFormat.Proofs.Precedence.Overtaking

/-!
What the tokens of a phrase say about its tree. If no operator overtakes, the canonical text of the
tree nests no deeper than the tokens do. If no parenthesis only groups, every operation binds no
looser than the operator after it exactly if no operator overtakes, and always tighter than the
operator before it.
-/
namespace ShiFormat.Grammar
open Node

/-- An opening parenthesis belongs to the call or the condition whose name or word it follows. -/
def Attached (before t : Token) : Prop :=
  t.kind = .leftParen → before.kind = .identifier ∨ before.kind = .ifWord

instance : DecidableRel Attached := fun _ _ => inferInstanceAs (Decidable (_ → _))

/-- After the first token, no parenthesis only groups. -/
def Ungrouped (ts : List Token) : Prop := ts.IsChain Attached

instance : DecidablePred Ungrouped := fun ts => inferInstanceAs (Decidable (ts.IsChain Attached))

/-- No parenthesis after this token belongs to a call or a condition. -/
def Detached (before : Token) : Prop := before.kind ≠ .identifier ∧ before.kind ≠ .ifWord

namespace Ungrouped

variable {before t : Token} {ts us : List Token}

theorem tail (h : Ungrouped (before :: ts)) : Ungrouped ts := List.IsChain.tail h

theorem left (h : Ungrouped (before :: (ts ++ us))) : Ungrouped (before :: ts) := by
  have whole : ((before :: ts) ++ us).IsChain Attached := h
  exact whole.left_of_append

theorem right (h : Ungrouped (ts ++ us)) : Ungrouped us := List.IsChain.right_of_append h

theorem not_paren (h : Ungrouped (before :: t :: ts)) (detached : Detached before) :
    t.kind ≠ .leftParen := by
  intro paren
  exact (List.IsChain.rel h paren).elim detached.1 detached.2

end Ungrouped

/-- Operations on the left are in order exactly if nothing was found, and those on the right
always are. -/
structure Ordered (every : (TokenKind → Node → Node → Bool) → Bool) (found : Bool) : Prop where
  lefts : every leftHolds = !found
  rights : every rightHolds = true

theorem Ordered.both {every other : (TokenKind → Node → Node → Bool) → Bool} {found found' : Bool}
    (first : Ordered every found) (second : Ordered other found') :
    Ordered (fun test => every test && other test) (found || found') where
  lefts := by simp [first.lefts, second.lefts]
  rights := by simp [first.rights, second.rights]

/-- A phrase that leaves the guard as it was. -/
structure OperandSurvey (d : Nat) (ts : List Token) (node : Node) (found : Bool) : Prop where
  scanned : ∀ guard, Scanned ts found guard guard
  room : found = false →
    node.innerLevels + (node.isNegation || node.operator?.isSome).toNat ≤ d
  order : ∀ before, Detached before → Ungrouped (before :: ts) →
    node.operator? = none ∧ Ordered node.everyOperation found

structure HeadSurvey (d : Nat) (ts : List Token) (arguments : List Node) (found : Bool) : Prop where
  scanned : ∀ guard, Scanned ts found guard guard
  room : found = false → listLevels arguments ≤ d
  order : Ungrouped ts → Ordered (fun test => everyOperationOf test arguments) found

structure ItemsSurvey (d : Nat) (ts : List Token) (items : List Node) (found : Bool) : Prop where
  scanned : ∃ after, Scanned ts found none after
  room : found = false → listLevels items ≤ d
  order : ∀ before, Detached before → Ungrouped (before :: ts) →
    Ordered (fun test => everyOperationOf test items) found

/-- The guard that a chain leaves behind is passed by the operators that overtake the chain. A
chain whose operators would have to bind tighter than a negation is an operand. -/
structure ChainSurvey (m : Nat) (ceiling : Option Nat) (d : Nat) (ts : List Token) (node : Node)
    (found : Bool) (after : Option Nat) : Prop where
  scanned : Scanned ts found none after
  single : TokenKind.bang.rank ≤ m → ∀ guard, Scanned ts found guard guard
  guarded : ∀ g ∈ after, m < g
  bounded : ∀ c ∈ ceiling, m < c
  room : found = false → ∀ p, (∀ c ∈ ceiling, p ≤ c) → passes after p = false →
    node.innerLevels + (node.isNegation || node.looser p).toNat ≤ d
  order : ∀ before, Detached before → Ungrouped (before :: ts) →
    (∀ p, (∀ c ∈ ceiling, p ≤ c) → node.looser p = passes after p) ∧
      Ordered node.everyOperation found

structure ExpressionSurvey (m d : Nat) (ts : List Token) (node : Node) (found : Bool) : Prop where
  single : startsWith .bang ts = true ∨ TokenKind.bang.rank ≤ m →
    ∀ guard, Scanned ts found guard guard
  several : startsWith .bang ts = false →
    ∃ after, (∀ g ∈ after, m < g) ∧ Scanned ts found none after
  room : found = false → node.innerLevels + 1 + (node.looser (m + 1)).toNat ≤ d
  order : ∀ before, Detached before → Ungrouped (before :: ts) →
    node.looser (m + 1) = false ∧ Ordered node.everyOperation found

theorem passes_eq_false {guard : Option Nat} {p : Nat} (above : ∀ g ∈ guard, p ≤ g) :
    passes guard p = false := by
  cases guard with
  | none => rfl
  | some g =>
    have le := above g rfl
    simpa [passes] using le

theorem looser_of_operator {e : Node} (none : e.operator? = none) (p : Nat) :
    e.looser p = false := by
  simp [looser, none]

section
variable {m d e : Nat} {ts us : List Token} {node index left right : Node} {items : List Node}
  {found other : Bool} {id opening closing : Token}

theorem ExpressionSurvey.start (h : ExpressionSurvey m d ts node found) :
    ∃ after, Scanned ts found none after := by
  cases bang : startsWith .bang ts with
  | true => exact ⟨none, h.single (.inl bang) none⟩
  | false =>
    obtain ⟨after, _, scanned⟩ := h.several bang
    exact ⟨after, scanned⟩

theorem ExpressionSurvey.room_alone (h : ExpressionSurvey m d ts node found)
    (clear : found = false) : node.innerLevels + 1 ≤ d := by
  have room := h.room clear
  omega

/-- A token that is an operand by itself. -/
theorem OperandSurvey.single {t : Token} (still : Scanned.quiet t.kind)
    (levels : node.innerLevels = 0) (whole : node.isNegation = false)
    (none : node.operator? = none) (every : ∀ test, node.everyOperation test = true) :
    OperandSurvey 0 [t] node false where
  scanned _ := .skip still .nil
  room _ := by simp [levels, whole, none]
  order _ _ _ := ⟨none, ⟨every _, every _⟩⟩

theorem ExpressionSurvey.brackets (inside : ExpressionSurvey m d ts node found)
    (opens : opening.kind = .leftParen ∨ opening.kind = .leftBracket)
    (closes : closing.kind = .rightParen ∨ closing.kind = .rightBracket) (guard : Option Nat) :
    Scanned (opening :: (ts ++ [closing])) found guard guard := by
  obtain ⟨after, scanned⟩ := inside.start
  exact .brackets opens closes scanned

theorem ItemsSurvey.brackets (inside : ItemsSurvey d ts items found)
    (opens : opening.kind = .leftParen ∨ opening.kind = .leftBracket)
    (closes : closing.kind = .rightParen ∨ closing.kind = .rightBracket) (guard : Option Nat) :
    Scanned (opening :: (ts ++ [closing])) found guard guard := by
  obtain ⟨after, scanned⟩ := inside.scanned
  exact .brackets opens closes scanned

theorem quiet_identifier (kind : id.kind = .identifier) : Scanned.quiet id.kind := by
  rw [kind]
  rfl

theorem quiet_literal {value : Token} (kind : value.kind ∈ TokenKind.literals) :
    Scanned.quiet value.kind := by
  rcases TokenKind.mem_literals.mp kind with kind | kind | kind | kind <;>
    simp [kind, Scanned.quiet]

theorem detached_of {t : Token} {kind : TokenKind} (same : t.kind = kind)
    (other : (kind != .identifier && kind != .ifWord) = true) : Detached t := by
  unfold Detached
  rw [same]
  simpa using other

theorem detached_operator {op : Token} {p : Nat}
    (precedence : op.kind.binaryPrecedence? = some p) : Detached op := by
  constructor
  · intro kind
    simp [kind, TokenKind.binaryPrecedence?] at precedence
  · intro kind
    simp [kind, TokenKind.binaryPrecedence?] at precedence

theorem ExpressionSurvey.indexed (inside : ExpressionSurvey 0 d ts index found)
    (kind : id.kind = .identifier) (opens : opening.kind = .leftBracket)
    (closes : closing.kind = .rightBracket) :
    OperandSurvey d (id :: opening :: (ts ++ [closing])) (.arrayAccess id index) found where
  scanned guard := .skip (quiet_identifier kind) (inside.brackets (.inr opens) (.inr closes) guard)
  room clear := inside.room_alone clear
  order _ _ bare :=
    ⟨rfl, (inside.order opening (detached_of opens rfl) bare.tail.tail.left).2⟩

theorem ExpressionSurvey.parenthesized (inside : ExpressionSurvey 0 d ts node found)
    (opens : opening.kind = .leftParen) (closes : closing.kind = .rightParen) :
    OperandSurvey d (opening :: (ts ++ [closing])) node found where
  scanned guard := inside.brackets (.inl opens) (.inl closes) guard
  room clear := by
    have room := inside.room_alone clear
    have small : (node.isNegation || node.operator?.isSome).toNat ≤ 1 := Bool.toNat_le _
    omega
  order _ detached bare := absurd opens (bare.not_paren detached)

theorem ItemsSurvey.bracketed (inside : ItemsSurvey d ts items found)
    (opens : opening.kind = .leftBracket) (closes : closing.kind = .rightBracket) :
    OperandSurvey d (opening :: (ts ++ [closing])) (.expressionList items) found where
  scanned guard := inside.brackets (.inr opens) (.inr closes) guard
  room clear := inside.room clear
  order _ _ bare := ⟨rfl, inside.order opening (detached_of opens rfl) bare.tail.left⟩

theorem ItemsSurvey.applied (inside : ItemsSurvey d ts items found)
    (kind : id.kind = .identifier) (opens : opening.kind = .leftParen)
    (closes : closing.kind = .rightParen) :
    HeadSurvey d (id :: opening :: (ts ++ [closing])) items found where
  scanned guard := .skip (quiet_identifier kind) (inside.brackets (.inl opens) (.inl closes) guard)
  room clear := inside.room clear
  order bare := inside.order opening (detached_of opens rfl) bare.tail.left

theorem HeadSurvey.called (head : HeadSurvey d ts items found) :
    OperandSurvey d ts (.call id items none) found where
  scanned := head.scanned
  room clear := head.room clear
  order _ _ bare := ⟨rfl, head.order bare.tail⟩

theorem ItemsSurvey.nil : ItemsSurvey 0 [] [] false where
  scanned := ⟨none, .nil⟩
  room _ := Nat.le_refl 0
  order _ _ _ := ⟨rfl, rfl⟩

theorem ExpressionSurvey.last (h : ExpressionSurvey 0 d ts node found) :
    ItemsSurvey d ts [node] found where
  scanned := h.start
  room clear := by
    have room := h.room_alone clear
    simpa [listLevels] using room
  order before detached bare := by
    have ordered := (h.order before detached bare).2
    constructor
    · simp [everyOperationOf, ordered.lefts]
    · simp [everyOperationOf, ordered.rights]

theorem ExpressionSurvey.cons {comma : Token} (h : ExpressionSurvey 0 d ts node found)
    (separated : comma.kind = .comma) (others : ItemsSurvey e us items other) :
    ItemsSurvey (max d e) (ts ++ comma :: us) (node :: items) (found || other) where
  scanned := by
    obtain ⟨middle, first⟩ := h.start
    obtain ⟨after, second⟩ := others.scanned
    exact ⟨after, first.append (.reset (.inl separated) second)⟩
  room clear := by
    rw [Bool.or_eq_false_iff] at clear
    have first := h.room_alone clear.1
    have second := others.room clear.2
    simp only [listLevels]
    omega
  order before detached bare := by
    have first := (h.order before detached bare.left).2
    have second := others.order comma (detached_of separated rfl) bare.tail.right
    exact first.both second

theorem ExpressionSurvey.negation {bang : Token} (kind : bang.kind = .bang)
    (inside : ExpressionSurvey TokenKind.bang.rank d ts node found) :
    ExpressionSurvey m (d + 1) (bang :: ts) (.notOp node) found where
  single _ guard :=
    .skip (by simp [kind, Scanned.quiet]) (inside.single (.inr (Nat.le_refl _)) guard)
  several plain := by simp [startsWith, kind] at plain
  room clear := by
    have room := inside.room clear
    rw [← notNeedsParens_eq] at room
    have whole : (notOp node).looser (m + 1) = false := rfl
    simp only [innerLevels, whole, Bool.toNat_false]
    omega
  order before _ bare :=
    ⟨rfl, (inside.order bang (detached_of kind rfl) bare.tail).2⟩

theorem OperandSurvey.primary (h : OperandSurvey d ts node found) :
    ChainSurvey m none d ts node found none where
  scanned := h.scanned none
  single _ := h.scanned
  guarded := by simp
  bounded := by simp
  room clear p _ _ := by
    have room := h.room clear
    cases none : node.operator? with
    | none => simpa [looser_of_operator none, none] using room
    | some op =>
      have small : (node.isNegation || node.looser p).toNat ≤ 1 := Bool.toNat_le _
      simp only [none, Option.isSome_some, Bool.or_true, Bool.toNat_true] at room
      omega
  order before detached bare := by
    obtain ⟨none, ordered⟩ := h.order before detached bare
    exact ⟨fun p _ => looser_of_operator none p, ordered⟩

/-- What an operand leaves behind for the operators after it. -/
theorem ExpressionSurvey.after_operator {p : Nat} (h : ExpressionSurvey p d ts node found) :
    ∃ after, Scanned ts found (guardAfter p ts) after ∧ (∀ g ∈ after, p ≤ g) ∧
      ∀ q, (∀ c ∈ ceilingAfter p ts, q ≤ c) → passes after q = decide (p < q) := by
  unfold guardAfter ceilingAfter
  cases bang : startsWith .bang ts with
  | true => exact ⟨some p, h.single (.inl bang) _, by simp, by simp [passes]⟩
  | false =>
    obtain ⟨after, guarded, scanned⟩ := h.several bang
    refine ⟨after, scanned, fun g member => Nat.le_of_lt (guarded g member), ?_⟩
    intro q bound
    have le : q ≤ p := bound p rfl
    rw [passes_eq_false fun g member => Nat.le_trans le (Nat.le_of_lt (guarded g member))]
    simpa using le

theorem ChainSurvey.operator {p : Nat} {ceiling after : Option Nat} {op : Token}
    (before : ChainSurvey m ceiling d ts left found after)
    (precedence : op.kind.binaryPrecedence? = some p) (tighter : m < p)
    (below : ∀ c ∈ ceiling, p ≤ c) (some_right : us ≠ [])
    (operand : ExpressionSurvey p e us right other) :
    ∃ last, ChainSurvey m (ceilingAfter p us) (max d e) (ts ++ op :: us) (.binaryOp op left right)
      (found || (passes after p || other)) last := by
  obtain ⟨last, scanned, guarded, passed⟩ := operand.after_operator
  have rank : op.kind.rank = p := TokenKind.rank_of_binary precedence
  refine ⟨last, ?_, ?_, ?_, ?_, ?_, ?_⟩
  · exact before.scanned.append (.operator precedence some_right scanned)
  · intro tight
    have small := (TokenKind.binary_bounds precedence).2
    omega
  · intro g member
    exact Nat.lt_of_lt_of_le tighter (guarded g member)
  · intro c member
    rw [eq_of_mem_ceilingAfter member]
    exact tighter
  · intro clear q bound free
    rw [Bool.or_eq_false_iff, Bool.or_eq_false_iff] at clear
    have on_left := before.room clear.1 p below clear.2.1
    have on_right := operand.room clear.2.2
    have whole : (Node.binaryOp op left right).isNegation = false := rfl
    rw [passed q bound] at free
    simp only [innerLevels, leftNeedsParens_eq, rightNeedsParens_eq, rank, looser_binaryOp, free,
      whole, Bool.or_self, Bool.toNat_false]
    omega
  · intro first detached bare
    have on_left := before.order first detached bare.left
    have on_right := operand.order op (detached_operator precedence) bare.tail.right
    refine ⟨fun q bound => ?_, ?_, ?_⟩
    · rw [passed q bound, looser_binaryOp, rank]
    · simp only [everyOperation, leftHolds, rank, on_left.1 p below, on_left.2.lefts,
        on_right.2.lefts]
      cases found <;> cases passes after p <;> simp
    · simp [everyOperation, rightHolds, rank, on_right.1, on_left.2.rights, on_right.2.rights]

theorem ChainSurvey.expression {ceiling after : Option Nat}
    (h : ChainSurvey m ceiling d ts node found after) (plain : startsWith .bang ts = false) :
    ExpressionSurvey m (d + 1) ts node found where
  single alone := h.single (alone.resolve_left (by simp [plain]))
  several _ := ⟨after, h.guarded, h.scanned⟩
  room clear := by
    have free : passes after (m + 1) = false := passes_eq_false h.guarded
    have room := h.room clear (m + 1) h.bounded free
    have small : (node.looser (m + 1)).toNat ≤ (node.isNegation || node.looser (m + 1)).toNat := by
      cases node.isNegation <;> cases node.looser (m + 1) <;> decide
    omega
  order before detached bare := by
    have order := h.order before detached bare
    have free : passes after (m + 1) = false := passes_eq_false h.guarded
    exact ⟨(order.1 (m + 1) h.bounded).trans free, order.2⟩

end

mutual

theorem Primary.survey {d : Nat} {ts : List Token} {node : Node} : Primary d ts node →
    ∃ found, OperandSurvey d ts node found
  | .literal kind => ⟨false, .single (quiet_literal kind) rfl rfl rfl fun _ => rfl⟩
  | .identifier kind => ⟨false, .single (quiet_identifier kind) rfl rfl rfl fun _ => rfl⟩
  | .arrayAccess kind opens inside closes => by
    obtain ⟨found, survey⟩ := inside.survey
    exact ⟨found, survey.indexed kind opens closes⟩
  | .scopeAccess kind dotted member => by
    refine ⟨false, fun guard => ?_, fun _ => Nat.le_refl 0, fun _ _ _ => ⟨rfl, rfl, rfl⟩⟩
    exact .skip (quiet_identifier kind)
      (.skip (by simp [dotted, Scanned.quiet]) (.skip (quiet_identifier member) .nil))
  | .call head => by
    obtain ⟨found, survey⟩ := head.survey
    exact ⟨found, survey.called⟩
  | .parenthesized opens inside closes => by
    obtain ⟨found, survey⟩ := inside.survey
    exact ⟨found, survey.parenthesized opens closes⟩
  | .bracketed opens inside closes => by
    obtain ⟨found, survey⟩ := inside.survey
    exact ⟨found, survey.bracketed opens closes⟩

theorem CallHead.survey {d : Nat} {ts : List Token} {id : Token} {arguments : List Node} :
    CallHead d ts id arguments → ∃ found, HeadSurvey d ts arguments found
  | .applied kind opens inside closes => by
    obtain ⟨found, survey⟩ := inside.survey
    exact ⟨found, survey.applied kind opens closes⟩

theorem Items.survey {d : Nat} {ts : List Token} {items : List Node} : Items d ts items →
    ∃ found, ItemsSurvey d ts items found
  | .nil => ⟨false, .nil⟩
  | .last first => by
    obtain ⟨found, survey⟩ := first.survey
    exact ⟨found, survey.last⟩
  | .cons first separated others => by
    obtain ⟨found, survey⟩ := first.survey
    obtain ⟨other, rest⟩ := others.survey
    exact ⟨_, survey.cons separated rest⟩

theorem Chain.survey {m d : Nat} {ceiling : Option Nat} {ts : List Token} {node : Node} :
    Chain m ceiling d ts node → ∃ found after, ChainSurvey m ceiling d ts node found after
  | .primary operand => by
    obtain ⟨found, survey⟩ := operand.survey
    exact ⟨found, none, survey.primary⟩
  | .operator before precedence tighter below operand => by
    obtain ⟨found, after, survey⟩ := before.survey
    obtain ⟨other, right⟩ := operand.survey
    obtain ⟨t, more, rfl, _⟩ := operand.starts
    obtain ⟨last, whole⟩ := survey.operator precedence tighter below (List.cons_ne_nil _ _) right
    exact ⟨_, last, whole⟩

theorem Expression.survey {m d : Nat} {ts : List Token} {node : Node} : Expression m d ts node →
    ∃ found, ExpressionSurvey m d ts node found
  | .negation kind inside => by
    obtain ⟨found, survey⟩ := inside.survey
    exact ⟨found, survey.negation kind⟩
  | .chain operands => by
    obtain ⟨found, after, survey⟩ := operands.survey
    exact ⟨found, survey.expression operands.not_bang⟩

end

/-- A phrase of statements, with the levels of its tree. -/
structure LinesSurvey (d : Nat) (ts : List Token) (levels : Nat)
    (every : (TokenKind → Node → Node → Bool) → Bool) (found : Bool) : Prop where
  scanned : ∀ guard, ∃ after, Scanned ts found guard after
  room : found = false → levels ≤ d
  order : Ungrouped ts → Ordered every found

section
variable {d e levels more : Nat} {ts us : List Token} {found other : Bool} {t : Token}
  {every every' : (TokenKind → Node → Node → Bool) → Bool}

theorem LinesSurvey.nil : LinesSurvey 0 [] 0 (fun _ => true) false where
  scanned guard := ⟨guard, .nil⟩
  room _ := Nat.le_refl 0
  order _ := ⟨rfl, rfl⟩

theorem LinesSurvey.append (first : LinesSurvey d ts levels every found)
    (second : LinesSurvey e us more every' other) :
    LinesSurvey (max d e) (ts ++ us) (max levels more) (fun test => every test && every' test)
      (found || other) where
  scanned guard := by
    obtain ⟨middle, scanned⟩ := first.scanned guard
    obtain ⟨after, scanned'⟩ := second.scanned middle
    exact ⟨after, scanned.append scanned'⟩
  room clear := by
    rw [Bool.or_eq_false_iff] at clear
    have le := first.room clear.1
    have le' := second.room clear.2
    omega
  order bare := (first.order (List.IsChain.left_of_append bare)).both (second.order bare.right)

theorem LinesSurvey.after_word (h : LinesSurvey d ts levels every found)
    (still : Scanned.quiet t.kind) : LinesSurvey d (t :: ts) levels every found where
  scanned guard := by
    obtain ⟨after, scanned⟩ := h.scanned guard
    exact ⟨after, .skip still scanned⟩
  room := h.room
  order bare := h.order bare.tail

theorem LinesSurvey.braced {opening closing : Token} (h : LinesSurvey d ts levels every found)
    (opens : opening.kind = .leftBrace) (closes : closing.kind = .rightBrace) :
    LinesSurvey (d + 1) (opening :: (ts ++ [closing])) (levels + 1) every found where
  scanned guard := by
    obtain ⟨after, scanned⟩ := h.scanned guard
    have close : Scanned [closing] false after after :=
      .skip (by simp [closes, Scanned.quiet]) .nil
    have whole := scanned.append close
    rw [Bool.or_false] at whole
    exact ⟨after, .skip (by simp [opens, Scanned.quiet]) whole⟩
  room clear := Nat.succ_le_succ (h.room clear)
  order bare := h.order bare.left.tail

theorem HeadSurvey.lines {arguments : List Node} (h : HeadSurvey d ts arguments found) :
    LinesSurvey d ts (listLevels arguments) (fun test => everyOperationOf test arguments)
      found where
  scanned guard := ⟨guard, h.scanned guard⟩
  room := h.room
  order := h.order

theorem ExpressionSurvey.assigned {id op : Token} {value : Node}
    (h : ExpressionSurvey 0 d ts value found) (kind : id.kind = .identifier)
    (assigns : op.kind ∈ TokenKind.assignmentOperators) :
    LinesSurvey d (id :: op :: ts) (value.innerLevels + 1) value.everyOperation found where
  scanned guard := by
    obtain ⟨after, scanned⟩ := h.start
    exact ⟨after, .skip (quiet_identifier kind) (.reset (.inr assigns) scanned)⟩
  room := h.room_alone
  order bare := by
    have detached : Detached op := by
      rcases TokenKind.mem_assignmentOperators.mp assigns with same | same | same <;>
        exact detached_of same rfl
    exact (h.order op detached bare.tail).2

theorem ExpressionSurvey.tested {word opening closing : Token} {test : Node}
    (h : ExpressionSurvey 0 d ts test found) (kind : word.kind = .ifWord)
    (opens : opening.kind = .leftParen) (closes : closing.kind = .rightParen) :
    LinesSurvey d (word :: opening :: (ts ++ [closing])) (test.innerLevels + 1)
      test.everyOperation found where
  scanned guard := by
    have brackets := h.brackets (.inl opens) (.inl closes) guard
    exact ⟨guard, .skip (by simp [kind, Scanned.quiet]) brackets⟩
  room := h.room_alone
  order bare := (h.order opening (detached_of opens rfl) bare.tail.left).2

end

mutual

theorem Block.survey {d : Nat} {ts : List Token} {body : List Node} : Block d ts body →
    ∃ found, LinesSurvey d ts (bodyLevels body + 1) (fun test => everyOperationOf test body) found
  | .braced opens inside closes => by
    obtain ⟨found, survey⟩ := inside.survey
    exact ⟨found, survey.braced opens closes⟩

theorem Statements.survey {d : Nat} {ts : List Token} {body : List Node} : Statements d ts body →
    ∃ found, LinesSurvey d ts (bodyLevels body) (fun test => everyOperationOf test body) found
  | .nil => ⟨false, .nil⟩
  | .cons first others => by
    obtain ⟨found, survey⟩ := first.survey
    obtain ⟨other, rest⟩ := others.survey
    exact ⟨_, survey.append rest⟩

theorem Statement.survey {d : Nat} {ts : List Token} {statement : Node} :
    Statement d ts statement →
      ∃ found, LinesSurvey d ts statement.statementLevels statement.everyOperation found
  | .assignment kind assigns right => by
    obtain ⟨found, survey⟩ := right.survey
    exact ⟨found, survey.assigned kind assigns⟩
  | .call head => by
    obtain ⟨found, survey⟩ := head.survey
    exact ⟨found, survey.lines⟩
  | .callBlock head block => by
    obtain ⟨found, survey⟩ := head.survey
    obtain ⟨other, rest⟩ := block.survey
    exact ⟨_, survey.lines.append rest⟩
  | .condition guarded otherwise => by
    obtain ⟨found, survey⟩ := guarded.survey
    obtain ⟨other, rest⟩ := otherwise.survey
    exact ⟨_, survey.append rest⟩

theorem Guarded.survey {d : Nat} {ts : List Token} {test : Node} {body : List Node} :
    Guarded d ts test body →
      ∃ found, LinesSurvey d ts (max (test.innerLevels + 1) (bodyLevels body + 1))
        (fun holds => test.everyOperation holds && everyOperationOf holds body) found
  | .guarded kind opens inside closes block => by
    obtain ⟨found, survey⟩ := inside.survey
    obtain ⟨other, rest⟩ := block.survey
    have whole := (survey.tested kind opens closes).append rest
    simp only [List.cons_append, List.append_assoc, List.nil_append] at whole
    exact ⟨_, whole⟩

theorem Otherwise.survey {d : Nat} {ts : List Token} {alternative : Alternative} :
    Otherwise d ts alternative →
      ∃ found, LinesSurvey d ts alternative.levels alternative.everyOperation found
  | .absent => ⟨false, .nil⟩
  | .elseIf kind guarded otherwise => by
    obtain ⟨found, survey⟩ := guarded.survey
    obtain ⟨other, rest⟩ := otherwise.survey
    exact ⟨_, (survey.append rest).after_word (by simp [kind, Scanned.quiet])⟩
  | .elseBlock kind block => by
    obtain ⟨found, survey⟩ := block.survey
    exact ⟨found, survey.after_word (by simp [kind, Scanned.quiet])⟩

end

theorem Statements.overtakes_eq {d : Nat} {ts : List Token} {body : List Node}
    (h : Statements d ts body) :
    (overtakes none [] ts = false → bodyLevels body ≤ d) ∧
      (Ungrouped ts → Ordered (fun test => everyOperationOf test body) (overtakes none [] ts)) := by
  obtain ⟨found, survey⟩ := h.survey
  obtain ⟨after, scanned⟩ := survey.scanned none
  have same : overtakes none [] ts = found := by
    have whole := scanned [] []
    simpa [overtakes] using whole
  rw [same]
  exact ⟨survey.room, survey.order⟩

end ShiFormat.Grammar
