import ShiFormat.Proofs.Canonical.Content

/-!
Balance of parentheses in the tokens of a phrase, and what it says about two ways to read the same
tokens: an operand that is in parentheses for one of them is not cut off at the same place, without
parentheses, for the other.
-/
namespace ShiFormat
open Grammar

def TokenKind.parenWeight : TokenKind → Int
  | .leftParen => 1
  | .rightParen => -1
  | _ => 0

/-- How many more parentheses the tokens open than they close. -/
def parenDepth : List Token → Int
  | [] => 0
  | t :: ts => t.kind.parenWeight + parenDepth ts

@[simp] theorem parenDepth_nil : parenDepth [] = 0 := rfl

@[simp] theorem parenDepth_cons (t : Token) (ts : List Token) :
    parenDepth (t :: ts) = t.kind.parenWeight + parenDepth ts := rfl

@[simp] theorem parenDepth_append (ts us : List Token) :
    parenDepth (ts ++ us) = parenDepth ts + parenDepth us := by
  induction ts with
  | nil => simp
  | cons t ts ih => rw [List.cons_append, parenDepth_cons, parenDepth_cons, ih, Int.add_assoc]

@[simp] theorem parenDepth_unplaced (ts : List Token) :
    parenDepth (ts.map Token.unplaced) = parenDepth ts := by
  induction ts with
  | nil => rfl
  | cons t ts ih => rw [List.map_cons, parenDepth_cons, parenDepth_cons, ih, Token.unplaced_kind]

/-- At no place are there more parentheses closed before it than opened, or more opened after it
than closed. -/
def ParenBalanced (ts : List Token) : Prop :=
  ∀ front back, ts = front ++ back → 0 ≤ parenDepth front ∧ parenDepth back ≤ 0

namespace ParenBalanced
variable {ts us : List Token}

theorem depth_eq (h : ParenBalanced ts) : parenDepth ts = 0 := by
  have opens := (h ts [] (List.append_nil ts).symm).1
  have closes := (h [] ts rfl).2
  omega

theorem nil : ParenBalanced [] := by
  intro front back split
  obtain ⟨rfl, rfl⟩ := List.append_eq_nil_iff.mp split.symm
  simp

theorem append (first : ParenBalanced ts) (second : ParenBalanced us) :
    ParenBalanced (ts ++ us) := by
  intro front back split
  have none := first.depth_eq
  have none' := second.depth_eq
  rcases List.append_eq_append_iff.mp split with ⟨rest, rfl, later⟩ | ⟨rest, here, rfl⟩
  · have cut := second rest back later
    simp only [parenDepth_append]
    omega
  · have cut := first front rest here
    simp only [parenDepth_append]
    omega

theorem single {t : Token} (other : t.kind.parenWeight = 0) : ParenBalanced [t] := by
  intro front back split
  cases front with
  | nil =>
    cases split
    simp [other]
  | cons x front =>
    obtain ⟨rfl, later⟩ := List.cons.inj split
    obtain ⟨rfl, rfl⟩ := List.append_eq_nil_iff.mp later.symm
    simp [other]

theorem cons {t : Token} (other : t.kind.parenWeight = 0) (h : ParenBalanced ts) :
    ParenBalanced (t :: ts) :=
  (single other).append h

theorem parenthesized {opening closing : Token} (opens : opening.kind = .leftParen)
    (closes : closing.kind = .rightParen) (h : ParenBalanced ts) :
    ParenBalanced (opening :: (ts ++ [closing])) := by
  have opened : opening.kind.parenWeight = 1 := by rw [opens]; rfl
  have closed : closing.kind.parenWeight = -1 := by rw [closes]; rfl
  have none := h.depth_eq
  intro front back split
  cases front with
  | nil =>
    obtain rfl : _ = back := split
    simp [opened, closed, none]
  | cons x front =>
    obtain ⟨rfl, later⟩ := List.cons.inj split
    rcases List.append_eq_append_iff.mp later with ⟨rest, rfl, last⟩ | ⟨rest, here, rfl⟩
    · cases rest with
      | nil =>
        obtain rfl : _ = back := last
        simp [opened, closed, none]
      | cons y rest =>
        obtain ⟨rfl, ended⟩ := List.cons.inj last
        obtain ⟨rfl, rfl⟩ := List.append_eq_nil_iff.mp ended.symm
        simp [opened, closed, none]
    · have cut := h front rest here
      simp only [parenDepth_cons, parenDepth_append, parenDepth_nil, opened, closed]
      omega

theorem unplaced (h : ParenBalanced ts) : ParenBalanced (ts.map Token.unplaced) := by
  intro front back split
  obtain ⟨us, vs, rfl, rfl, rfl⟩ := List.map_eq_append_iff.mp split
  rw [parenDepth_unplaced, parenDepth_unplaced]
  exact h us vs rfl

end ParenBalanced

namespace Grammar

theorem weight_of_kind {t : Token} {kind : TokenKind} (same : t.kind = kind)
    (other : kind.parenWeight = 0) : t.kind.parenWeight = 0 := by
  rw [same, other]

theorem weight_literal {t : Token} (literal : t.kind ∈ TokenKind.literals) :
    t.kind.parenWeight = 0 := by
  rcases TokenKind.mem_literals.mp literal with kind | kind | kind | kind <;> rw [kind] <;> rfl

theorem weight_operator {op : Token} {p : Nat} (precedence : op.kind.binaryPrecedence? = some p) :
    op.kind.parenWeight = 0 := by
  cases kind : op.kind <;> simp_all [TokenKind.binaryPrecedence?, TokenKind.parenWeight]

mutual

theorem Primary.balanced {d : Nat} {ts : List Token} {node : Node} : Primary d ts node →
    ParenBalanced ts
  | .literal kind => .single (weight_literal kind)
  | .identifier kind => .single (weight_of_kind kind rfl)
  | .arrayAccess kind opens inside closes =>
    .cons (weight_of_kind kind rfl) (.cons (weight_of_kind opens rfl)
      (inside.balanced.append (.single (weight_of_kind closes rfl))))
  | .scopeAccess kind dotted member =>
    .cons (weight_of_kind kind rfl) (.cons (weight_of_kind dotted rfl)
      (.single (weight_of_kind member rfl)))
  | .call head => head.balanced
  | .parenthesized opens inside closes => .parenthesized opens closes inside.balanced
  | .bracketed opens inside closes =>
    .cons (weight_of_kind opens rfl)
      (inside.balanced.append (.single (weight_of_kind closes rfl)))

theorem CallHead.balanced {d : Nat} {ts : List Token} {id : Token} {arguments : List Node} :
    CallHead d ts id arguments → ParenBalanced ts
  | .applied kind opens inside closes =>
    .cons (weight_of_kind kind rfl) (.parenthesized opens closes inside.balanced)

theorem Items.balanced {d : Nat} {ts : List Token} {items : List Node} : Items d ts items →
    ParenBalanced ts
  | .nil => .nil
  | .last first => first.balanced
  | .cons first separated others =>
    first.balanced.append (.cons (weight_of_kind separated rfl) others.balanced)

theorem Chain.balanced {m d : Nat} {ceiling : Option Nat} {ts : List Token} {node : Node} :
    Chain m ceiling d ts node → ParenBalanced ts
  | .primary operand => operand.balanced
  | .operator before precedence _ _ operand =>
    before.balanced.append (.cons (weight_operator precedence) operand.balanced)

theorem Expression.balanced {m d : Nat} {ts : List Token} {node : Node} :
    Expression m d ts node → ParenBalanced ts
  | .negation kind inside => .cons (weight_of_kind kind rfl) inside.balanced
  | .chain operands => operands.balanced

end
end Grammar

theorem content_solid {t : Token} (solid : t.kind.isGrouping = false) (ts : List Token) :
    content (t :: ts) = (t.kind, t.value) :: content ts := by
  simp [content, solid]

/-- A token in a content stands at one place of the tokens. -/
theorem split_of_content {ts : List Token} {x : TokenKind × String}
    {front back : List (TokenKind × String)} (same : content ts = front ++ x :: back) :
    ∃ us t vs, ts = us ++ t :: vs ∧ t.kind.isGrouping = false ∧ content us = front ∧
      content vs = back := by
  induction ts generalizing front with
  | nil => simp [content] at same
  | cons t ts ih =>
    cases grouping : t.kind.isGrouping with
    | true =>
      rw [content_skip grouping] at same
      obtain ⟨us, u, vs, rfl, solid, first, second⟩ := ih same
      exact ⟨t :: us, u, vs, rfl, solid, by rw [content_skip grouping, first], second⟩
    | false =>
      rw [content_solid grouping] at same
      cases front with
      | nil => exact ⟨[], t, ts, rfl, grouping, rfl, (List.cons.inj same).2⟩
      | cons y front =>
        obtain ⟨rfl, later⟩ := List.cons.inj same
        obtain ⟨us, u, vs, rfl, solid, first, second⟩ := ih later
        exact ⟨t :: us, u, vs, rfl, solid, by rw [content_solid grouping, first], second⟩

/-- Two cuts of the same tokens, each at a token that has a part in the content, are one if there is
the same content before them. -/
theorem split_unique {us vs us' vs' : List Token} {t t' : Token}
    (same : us ++ t :: vs = us' ++ t' :: vs') (solid : t.kind.isGrouping = false)
    (solid' : t'.kind.isGrouping = false) (before : content us = content us') :
    us = us' ∧ vs = vs' := by
  rcases List.append_eq_append_iff.mp same with ⟨rest, rfl, later⟩ | ⟨rest, rfl, later⟩
  · cases rest with
    | nil =>
      obtain ⟨rfl, rfl⟩ := List.cons.inj later
      exact ⟨(List.append_nil us).symm, rfl⟩
    | cons x rest =>
      obtain ⟨rfl, _⟩ := List.cons.inj later
      rw [content_append, content_solid solid] at before
      simp at before
  · cases rest with
    | nil =>
      obtain ⟨rfl, rfl⟩ := List.cons.inj later
      exact ⟨List.append_nil us', rfl⟩
    | cons x rest =>
      obtain ⟨rfl, _⟩ := List.cons.inj later
      rw [content_append, content_solid solid'] at before
      simp at before

section
variable {before left right after front inside back : List Token} {hinge op opening closing : Token}

/-- An operand before an operator: where its last part is balanced, it ends at the operator. In
parentheses it would end before. -/
theorem no_pair_before_operator
    (same : before ++ (left ++ hinge :: right) ++ op :: after =
      front ++ opening :: (inside ++ closing :: back))
    (sameBefore : content front = content before)
    (sameInside : content inside = content (left ++ hinge :: right))
    (sameAfter : content back = content (op :: after)) (solid : hinge.kind.isGrouping = false)
    (joins : op.kind.isGrouping = false) (opens : opening.kind = .leftParen)
    (closes : closing.kind = .rightParen) (balanced : ParenBalanced right)
    (balancedInside : ParenBalanced inside) : False := by
  rw [content_append, content_solid solid] at sameInside
  obtain ⟨inLeft, hinge', inRight, rfl, solid', sameLeft, sameRight⟩ := split_of_content sameInside
  rw [content_solid joins, ← List.nil_append (_ :: _)] at sameAfter
  obtain ⟨others, op', rest, rfl, joins', none, _⟩ := split_of_content sameAfter
  -- Both readings have the hinge at the same place, and so the operator after it.
  have atHinge : before ++ left = front ++ opening :: inLeft ∧
      right ++ op :: after = inRight ++ closing :: (others ++ op' :: rest) := by
    have cuts : before ++ left ++ hinge :: (right ++ op :: after) =
        front ++ opening :: inLeft ++
          hinge' :: (inRight ++ closing :: (others ++ op' :: rest)) := by
      simpa using same
    refine split_unique cuts solid solid' ?_
    rw [content_append, content_append, content_skip_kind opens rfl, sameBefore, sameLeft]
  have atOperator : right = inRight ++ closing :: others ∧ after = rest := by
    have cuts : right ++ op :: after = inRight ++ closing :: others ++ op' :: rest := by
      simpa using atHinge.2
    refine split_unique cuts joins joins' ?_
    rw [content_append, content_skip_kind closes rfl, none, List.append_nil, sameRight]
  have cut := (balanced (inRight ++ [closing]) others (by simp [atOperator.1])).1
  have cutInside := (balancedInside (inLeft ++ [hinge']) inRight (by simp)).2
  have closed : closing.kind.parenWeight = -1 := by rw [closes]; rfl
  simp [closed] at cut
  omega

/-- An operand after an operator: where its first part is balanced, it starts at the operator. In
parentheses it would start behind. -/
theorem no_pair_after_operator
    (same : before ++ op :: (left ++ hinge :: right) ++ after =
      front ++ opening :: (inside ++ closing :: back))
    (sameBefore : content front = content (before ++ [op]))
    (sameInside : content inside = content (left ++ hinge :: right))
    (solid : hinge.kind.isGrouping = false) (joins : op.kind.isGrouping = false)
    (opens : opening.kind = .leftParen) (balanced : ParenBalanced left)
    (balancedInside : ParenBalanced inside) : False := by
  rw [content_append, content_solid solid] at sameInside
  obtain ⟨inLeft, hinge', inRight, rfl, solid', sameLeft, sameRight⟩ := split_of_content sameInside
  -- Both readings have the hinge at the same place, and so the operator before it.
  have atHinge : before ++ op :: left = front ++ opening :: inLeft ∧
      right ++ after = inRight ++ closing :: back := by
    have cuts : before ++ op :: left ++ hinge :: (right ++ after) =
        front ++ opening :: inLeft ++ hinge' :: (inRight ++ closing :: back) := by
      simpa using same
    refine split_unique cuts solid solid' ?_
    rw [← List.singleton_append, ← List.append_assoc, content_append, content_append front,
      content_skip_kind opens rfl, sameBefore, sameLeft]
  rw [content_append, content_solid joins] at sameBefore
  obtain ⟨start, op', others, rfl, joins', first, _⟩ := split_of_content sameBefore
  have atOperator : before = start ∧ left = others ++ opening :: inLeft := by
    have cuts : before ++ op :: left = start ++ op' :: (others ++ opening :: inLeft) := by
      simpa using atHinge.1
    exact split_unique cuts joins joins' first.symm
  have cut := (balanced others (opening :: inLeft) atOperator.2).2
  have cutInside := (balancedInside inLeft (hinge' :: inRight) rfl).1
  have opened : opening.kind.parenWeight = 1 := by rw [opens]; rfl
  simp [opened] at cut
  omega

end
end ShiFormat
