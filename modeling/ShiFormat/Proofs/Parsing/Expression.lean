import ShiFormat.Proofs.Parsing.Steps

/-!
The parser reads every expression of the grammar as the grammar assigns it, provided that what
follows the expression cannot continue it. An expression that nests deeper than the levels left is
refused for its nesting, and for nothing else.
-/
namespace ShiFormat
open Grammar Parse

/-- A token of this kind cannot continue an operand. -/
def EndsOperand (kind : TokenKind) : Prop :=
  kind ≠ .leftParen ∧ kind ≠ .leftBracket ∧ kind ≠ .dot

/-- A token of this kind cannot continue an expression. -/
def EndsExpression (kind : TokenKind) : Prop :=
  EndsOperand kind ∧ kind.binaryPrecedence? = none

/-- A token of this kind starts an operand. -/
def StartsOperand (kind : TokenKind) : Prop :=
  kind = .identifier ∨ kind = .leftParen ∨ kind = .leftBracket ∨ kind ∈ TokenKind.literals

/-- A token of this kind is no operator, or one that binds no tighter than the minimum. -/
def NotTighter (minimum : Nat) (kind : TokenKind) : Prop :=
  ∀ p, kind.binaryPrecedence? = some p → p ≤ minimum

/-- The bound on the next operator holds of what follows. -/
def Bounded (ceiling : Option Nat) (rest : List Token) : Prop :=
  ∀ c ∈ ceiling, HeadKind (NotTighter c) rest

theorem endsOperand_of_operator {kind : TokenKind} {p : Nat}
    (operator : kind.binaryPrecedence? = some p) : EndsOperand kind := by
  cases kind <;> simp_all [EndsOperand, TokenKind.binaryPrecedence?]

theorem notTighter_notPrecedence (kind : TokenKind) : NotTighter notPrecedence kind := by
  intro p operator
  cases kind <;> simp_all [TokenKind.binaryPrecedence?, notPrecedence] <;> omega

theorem bounded_notPrecedence (ts rest : List Token) :
    Bounded (ceilingAfter notPrecedence ts) rest := by
  intro c member t _
  rw [eq_of_mem_ceilingAfter member]
  exact notTighter_notPrecedence t.kind

theorem EndsExpression.notTighter {kind : TokenKind} (ends : EndsExpression kind) (m : Nat) :
    NotTighter m kind := by
  intro p operator
  simp [ends.2] at operator

/-- A bracket of this kind closes a list of expressions. -/
def ClosesItems (kind : TokenKind) : Prop := kind = .rightParen ∨ kind = .rightBracket

theorem ClosesItems.ends {kind : TokenKind} (closes : ClosesItems kind) : EndsExpression kind := by
  rcases closes with rfl | rfl <;> simp [EndsExpression, EndsOperand, TokenKind.binaryPrecedence?]

theorem ClosesItems.starts_nothing {kind : TokenKind} (closes : ClosesItems kind) :
    kind ≠ .bang ∧ ¬ StartsOperand kind := by
  rcases closes with rfl | rfl <;> simp [StartsOperand, TokenKind.literals]

theorem ClosesItems.not_comma {kind : TokenKind} (closes : ClosesItems kind) : kind ≠ .comma := by
  rcases closes with rfl | rfl <;> simp

theorem ClosesItems.head {t : Token} (closes : ClosesItems t.kind) (rest : List Token) :
    HeadKind EndsExpression (t :: rest) := headKind_cons.mpr closes.ends

theorem comma_ends {comma : Token} (kind : comma.kind = .comma) (rest : List Token) :
    HeadKind EndsExpression (comma :: rest) := by
  simp [headKind_cons, kind, EndsExpression, EndsOperand, TokenKind.binaryPrecedence?]

theorem ends_operand {rest : List Token} (ends : HeadKind EndsExpression rest) :
    HeadKind EndsOperand rest := ends.mono fun _ end_ => end_.1

theorem bounded_of_ends {rest : List Token} (ends : HeadKind EndsExpression rest)
    (ceiling : Option Nat) : Bounded ceiling rest :=
  fun c _ => ends.mono fun _ end_ => end_.notTighter c

namespace Parse
variable {expr : ExpressionRule} {m : Nat} {finish : Location} {t : Token} {rest : List Token}

theorem expressionBody_negation (kind : t.kind = .bang) :
    expressionBody expr m finish (t :: rest) =
      (do let node ← negation expr; pure (some node) : Parse (Option Node)) finish (t :: rest) := by
  simp [expressionBody, kind]

theorem expressionBody_named (kind : t.kind = .identifier) :
    expressionBody expr m finish (t :: rest) = chain expr m (named expr) finish (t :: rest) := by
  simp [expressionBody, kind]

theorem expressionBody_parenthesized (kind : t.kind = .leftParen) :
    expressionBody expr m finish (t :: rest) =
      chain expr m (parenthesized expr) finish (t :: rest) := by
  simp [expressionBody, kind]

theorem expressionBody_bracketed (kind : t.kind = .leftBracket) :
    expressionBody expr m finish (t :: rest) =
      chain expr m (bracketed expr) finish (t :: rest) := by
  simp [expressionBody, kind]

theorem expressionBody_literal (kind : t.kind ∈ TokenKind.literals) :
    expressionBody expr m finish (t :: rest) =
      chain expr m (do let value ← consume TokenKind.literals; pure (.literal value)) finish
        (t :: rest) := by
  rcases TokenKind.mem_literals.mp kind with kind | kind | kind | kind <;>
    simp [expressionBody, kind, TokenKind.literals]

theorem expressionBody_none
    (head : HeadKind (fun kind => kind ≠ .bang ∧ ¬ StartsOperand kind) rest) :
    expressionBody expr m finish rest = .ok none rest := by
  cases rest with
  | nil => simp [expressionBody]
  | cons t rest =>
    have start := headKind_cons.mp head
    cases kind : t.kind <;> simp_all [expressionBody, StartsOperand, TokenKind.literals]

/-- The operators of an expression after its first operand. -/
def remaining (expr : ExpressionRule) (m : Nat) (budget : List Token) (left : Node) :
    Parse (Option Node) := do
  let node ← operators expr m budget left
  pure (some node)

theorem remaining_operator {op b : Token} {budget : List Token} {left : Node} {p : Nat}
    (precedence : op.kind.binaryPrecedence? = some p) (tighter : m < p) :
    remaining expr m (b :: budget) left finish (op :: rest) =
      (do let right ← required expr p .rightOperand
          remaining expr m budget (.binaryOp op left right)) finish rest := by
  simp only [remaining, operators, bind_run, kindAt_run, List.getElem?_cons_zero, Option.map_some,
    precedence, Nat.not_le.mpr tighter, ↓reduceIte, consume_run (List.mem_singleton.mpr rfl)]
  cases required expr p .rightOperand finish rest <;> rfl

theorem operators_stop {budget : List Token} {left : Node} (head : HeadKind (NotTighter m) rest) :
    operators expr m budget left finish rest = .ok left rest := by
  cases budget with
  | nil => rfl
  | cons b budget =>
    cases rest with
    | nil => simp [operators]
    | cons t rest =>
      have bound := headKind_cons.mp head
      simp only [operators, bind_run, kindAt_run, List.getElem?_cons_zero, Option.map_some]
      cases precedence : t.kind.binaryPrecedence? with
      | none => rfl
      | some p => simp [bound p precedence]

theorem moreItems_stop {budget : List Token} (head : HeadKind (· ≠ .comma) rest) :
    moreItems expr budget finish rest = .ok [] rest := by
  cases budget with
  | nil => rfl
  | cons b budget => simp [moreItems, startsWith_eq_false_iff.mpr head]

end Parse

theorem Grammar.Primary.starts {d : Nat} {ts : List Token} {node : Node} (h : Primary d ts node) :
    ∃ t more, ts = t :: more ∧ StartsOperand t.kind := by
  cases h with
  | literal kind => exact ⟨_, _, rfl, .inr (.inr (.inr kind))⟩
  | call head => cases head with | applied kind => exact ⟨_, _, rfl, .inl kind⟩
  | identifier kind | arrayAccess kind | scopeAccess kind => exact ⟨_, _, rfl, .inl kind⟩
  | parenthesized kind => exact ⟨_, _, rfl, .inr (.inl kind)⟩
  | bracketed kind => exact ⟨_, _, rfl, .inr (.inr (.inl kind))⟩

theorem Grammar.Chain.starts {m d : Nat} {ceiling : Option Nat} {ts : List Token} {node : Node} :
    Chain m ceiling d ts node → ∃ t more, ts = t :: more ∧ StartsOperand t.kind
  | .primary operand => operand.starts
  | .operator before _ _ _ _ => by
    obtain ⟨t, more, rfl, starts⟩ := before.starts
    exact ⟨t, _, rfl, starts⟩

theorem Grammar.Chain.not_bang {m d : Nat} {ceiling : Option Nat} {ts : List Token} {node : Node}
    (h : Chain m ceiling d ts node) : startsWith .bang ts = false := by
  obtain ⟨t, more, rfl, starts⟩ := h.starts
  refine startsWith_eq_false_iff.mpr (headKind_cons.mpr ?_)
  intro bang
  simp [StartsOperand, bang, TokenKind.literals] at starts

/-- What ends an expression ends each chain in it, since all operators of the chain bind tighter
than the minimum of the expression. -/
theorem Grammar.Chain.bounded {m d : Nat} {ceiling : Option Nat} {ts rest : List Token}
    {node : Node} (h : Chain m ceiling d ts node) (follows : HeadKind (NotTighter m) rest) :
    Bounded ceiling rest := by
  intro c member
  cases h with
  | primary operand => simp at member
  | operator before precedence tighter below operand =>
    rw [eq_of_mem_ceilingAfter member]
    refine follows.mono fun kind bound p operator => ?_
    exact Nat.le_trans (bound p operator) (Nat.le_of_lt tighter)

theorem Grammar.Expression.starts {m d : Nat} {ts : List Token} {node : Node}
    (h : Expression m d ts node) :
    ∃ t more, ts = t :: more ∧ (t.kind = .bang ∨ StartsOperand t.kind) := by
  cases h with
  | negation kind => exact ⟨_, _, rfl, .inl kind⟩
  | chain operands =>
    obtain ⟨t, more, rfl, starts⟩ := operands.starts
    exact ⟨t, more, rfl, .inr starts⟩

/-- A list whose first item is at hand is not closed yet. -/
theorem Grammar.Expression.not_closed {m d : Nat} {ts : List Token} {node : Node}
    {close : TokenKind} (h : Expression m d ts node) (closes : ClosesItems close)
    (rest : List Token) : startsWith close (ts ++ rest) = false := by
  obtain ⟨t, more, rfl, starts⟩ := h.starts
  have nothing := closes.starts_nothing
  refine startsWith_eq_false_iff.mpr (headKind_cons.mpr ?_)
  rintro rfl
  exact starts.elim nothing.1 nothing.2

theorem Grammar.Expression.depth_pos {m d : Nat} {ts : List Token} {node : Node}
    (h : Expression m d ts node) : 0 < d := by
  cases h <;> omega

section
variable {expr : ExpressionRule} {n m : Nat} {finish : Location} {fits : Prop}
  {id opening closing : Token} {ts rest : List Token}

theorem Leads.chain {first : Parse Node} {left : Node}
    (leads : Leads finish fits first ts (pure left) rest) :
    Leads finish fits (chain expr m first) ts (remaining expr m rest left) rest :=
  leads.done rfl

theorem Leads.required {missing : Missing} {node : Node}
    (leads : Leads finish fits (expr m) ts (pure (some node)) rest) :
    Leads finish fits (required expr m missing) ts (pure node) rest :=
  past here_run (leads.done rfl)

namespace Parse

theorem named_identifier (kind : id.kind = .identifier) (ends : HeadKind EndsOperand rest) :
    named expr finish (id :: rest) = .ok (.identifier id) rest := by
  have bracket : startsWith .leftBracket rest = false :=
    startsWith_eq_false_iff.mpr (ends.mono fun _ end_ => end_.2.1)
  have dot : startsWith .dot rest = false :=
    startsWith_eq_false_iff.mpr (ends.mono fun _ end_ => end_.2.2)
  have paren : rest[0]?.map Token.kind ≠ some .leftParen := by
    cases rest with
    | nil => simp
    | cons t rest => simpa using (headKind_cons.mp ends).1
  simp [named, access, paren, consume_run, kind, bracket, dot]

theorem named_scope {dot inner : Token} (kind : id.kind = .identifier) (dotted : dot.kind = .dot)
    (member : inner.kind = .identifier) :
    named expr finish (id :: dot :: inner :: rest) = .ok (.scopeAccess id inner) rest := by
  simp [named, access, consume_run, kind, dotted, member, startsWith]

theorem named_index {index : Node} (kind : id.kind = .identifier)
    (opens : opening.kind = .leftBracket) (closes : closing.kind = .rightBracket)
    (inside : Leads finish fits (expr 0) (ts ++ closing :: rest) (pure (some index))
      (closing :: rest)) :
    Leads finish fits (named expr) (id :: opening :: (ts ++ closing :: rest))
      (pure (.arrayAccess id index)) rest := by
  unfold named access
  refine .past (kindAt_run 1) ?_
  rw [if_neg (by simp [opens])]
  refine .past (consume_run (by simp [kind])) (.past (nextIs_run _) ?_)
  rw [if_pos (by simp [startsWith, opens])]
  refine .past (consume_run (by simp [opens])) (inside.required.done ?_)
  simp [consume_run, closes]

theorem named_call {d : Nat} {arguments : List Node} (head : CallHead d ts id arguments)
    (inside : Leads finish fits (callHead expr) (ts ++ rest) (pure (id, arguments)) rest) :
    Leads finish fits (named expr) (ts ++ rest) (pure (.call id arguments none)) rest := by
  have paren : (ts ++ rest)[1]?.map Token.kind = some .leftParen := by
    cases head with | applied kind opens => simp [opens]
  unfold named
  refine .past (kindAt_run 1) ?_
  rw [if_pos paren]
  exact inside.done rfl

theorem parenthesized_inside {inner : Node} (opens : opening.kind = .leftParen)
    (closes : closing.kind = .rightParen)
    (inside : Leads finish fits (expr 0) (ts ++ closing :: rest) (pure (some inner))
      (closing :: rest)) :
    Leads finish fits (parenthesized expr) (opening :: (ts ++ closing :: rest)) (pure inner)
      rest := by
  unfold parenthesized
  refine .past (consume_run (by simp [opens])) (inside.required.done ?_)
  simp [consume_run, closes]

theorem bracketed_inside {items : List Node} (opens : opening.kind = .leftBracket)
    (closes : closing.kind = .rightBracket)
    (inside : Leads finish fits (itemsUntil expr .rightBracket) (ts ++ closing :: rest)
      (pure items) (closing :: rest)) :
    Leads finish fits (bracketed expr) (opening :: (ts ++ closing :: rest))
      (pure (.expressionList items)) rest := by
  unfold bracketed
  refine .past (consume_run (by simp [opens])) (inside.done ?_)
  simp [consume_run, closes]

theorem callHead_inside {items : List Node} (kind : id.kind = .identifier)
    (opens : opening.kind = .leftParen) (closes : closing.kind = .rightParen)
    (inside : Leads finish fits (itemsUntil expr .rightParen) (ts ++ closing :: rest)
      (pure items) (closing :: rest)) :
    Leads finish fits (callHead expr) (id :: opening :: (ts ++ closing :: rest))
      (pure (id, items)) rest := by
  unfold callHead
  refine .past (consume_run (by simp [kind])) (.past (consume_run (by simp [opens])) ?_)
  refine inside.done ?_
  simp [consume_run, closes]

theorem negation_inside {bang : Token} {operand : Node} (kind : bang.kind = .bang)
    (inside : Leads finish fits (expr notPrecedence) ts (pure (some operand)) rest) :
    Leads finish fits (negation expr) (bang :: ts) (pure (.notOp operand)) rest := by
  unfold negation
  exact .past (consume_run (by simp [kind])) (inside.required.done rfl)

end Parse
end

mutual

theorem Grammar.Primary.leads {d : Nat} {ts : List Token} {node : Node} :
    Primary d ts node → ∀ (n m : Nat) (finish : Location) (rest : List Token),
      HeadKind EndsOperand rest →
      Leads finish (d ≤ n) (expressionBody (expression n) m) (ts ++ rest)
        (remaining (expression n) m rest node) rest
  | @Primary.literal value kind => by
    intro n m finish rest ends
    have run : (do let value ← consume TokenKind.literals; pure (Node.literal value) : Parse Node)
        finish (value :: rest) = .ok (.literal value) rest := by
      simp [consume_run kind]
    exact .of_eq (expressionBody_literal kind) (Leads.reads run (Nat.zero_le n)).chain
  | @Primary.identifier id kind => by
    intro n m finish rest ends
    have run : named (expression n) finish (id :: rest) = .ok (.identifier id) rest :=
      named_identifier kind ends
    exact .of_eq (expressionBody_named kind) (Leads.reads run (Nat.zero_le n)).chain
  | .arrayAccess kind opens inside closes => by
    intro n m finish rest ends
    have stop := ClosesItems.head (.inr closes) rest
    have index := inside.leads n finish _ (ends_operand stop) (bounded_of_ends stop _)
    simp only [List.cons_append, List.append_assoc, List.nil_append]
    exact .of_eq (expressionBody_named kind) (named_index kind opens closes index).chain
  | @Primary.scopeAccess id dot inner kind dotted member => by
    intro n m finish rest ends
    have run : named (expression n) finish (id :: dot :: inner :: rest) =
        .ok (.scopeAccess id inner) rest := named_scope kind dotted member
    exact .of_eq (expressionBody_named kind) (Leads.reads run (Nat.zero_le n)).chain
  | .call head => by
    intro n m finish rest ends
    have call := named_call head (head.leads n finish rest)
    cases head with
    | applied kind => exact .of_eq (expressionBody_named kind) call.chain
  | .parenthesized opens inside closes => by
    intro n m finish rest ends
    have stop := ClosesItems.head (.inl closes) rest
    have inner := inside.leads n finish _ (ends_operand stop) (bounded_of_ends stop _)
    simp only [List.cons_append, List.append_assoc, List.nil_append]
    exact .of_eq (expressionBody_parenthesized opens)
      (parenthesized_inside opens closes inner).chain
  | .bracketed opens inside closes => by
    intro n m finish rest ends
    have items := inside.leads n finish _ rest (.inr closes)
    rw [closes] at items
    simp only [List.cons_append, List.append_assoc, List.nil_append]
    exact .of_eq (expressionBody_bracketed opens) (bracketed_inside opens closes items).chain

theorem Grammar.CallHead.leads {d : Nat} {ts : List Token} {id : Token} {arguments : List Node} :
    CallHead d ts id arguments → ∀ (n : Nat) (finish : Location) (rest : List Token),
      Leads finish (d ≤ n) (callHead (expression n)) (ts ++ rest) (pure (id, arguments)) rest
  | .applied kind opens inside closes => by
    intro n finish rest
    have items := inside.leads n finish _ rest (.inl closes)
    rw [closes] at items
    simp only [List.cons_append, List.append_assoc, List.nil_append]
    exact callHead_inside kind opens closes items

theorem Grammar.Items.leads {d : Nat} {ts : List Token} {items : List Node} :
    Items d ts items → ∀ (n : Nat) (finish : Location) (closing : Token) (rest : List Token),
      ClosesItems closing.kind →
      Leads finish (d ≤ n) (itemsUntil (expression n) closing.kind) (ts ++ closing :: rest)
        (pure items) (closing :: rest)
  | .nil => by
    intro n finish closing rest closes
    exact .past (nextIs_run _) (.reads (by simp [startsWith]) (Nat.zero_le n))
  | .last first => by
    intro n finish closing rest closes
    have stop := closes.head rest
    have item := first.leads n finish _ (ends_operand stop) (bounded_of_ends stop _)
    have open_ := first.not_closed closes (closing :: rest)
    refine .past (nextIs_run _) ?_
    rw [if_neg (by simp [open_])]
    refine item.required.done ?_
    simp [moreItems_stop (headKind_cons.mpr closes.not_comma)]
  | @Items.cons comma _ _ _ us _ _ first separated others => by
    intro n finish closing rest closes
    have stop := comma_ends separated (us ++ closing :: rest)
    have item := first.leads n finish _ (ends_operand stop) (bounded_of_ends stop _)
    have open_ := first.not_closed closes (comma :: (us ++ closing :: rest))
    simp only [List.append_assoc, List.cons_append]
    refine .past (nextIs_run _) ?_
    rw [if_neg (by simp [open_])]
    refine (item.required.bind fun fit => .past unread_run ?_).iff Nat.max_le.symm
    have positive := Nat.lt_of_lt_of_le first.depth_pos fit
    have more := others.leads_more n finish _ closing rest _ positive closes separated
      (Nat.le_refl _)
    exact more.done rfl

/-- The level to spare is for the attempt at an item after the last comma. -/
theorem Grammar.Items.leads_more {d : Nat} {ts : List Token} {items : List Node} :
    Items d ts items → ∀ (n : Nat) (finish : Location) (comma closing : Token)
      (rest budget : List Token), 0 < n → ClosesItems closing.kind → comma.kind = .comma →
      (comma :: (ts ++ closing :: rest)).length ≤ budget.length →
      Leads finish (d ≤ n) (moreItems (expression n) budget) (comma :: (ts ++ closing :: rest))
        (pure items) (closing :: rest)
  | .nil => by
    intro n finish comma closing rest budget positive closes separated enough
    obtain ⟨b, budget, rfl, shorter⟩ := budget_cons enough
    obtain ⟨n, rfl⟩ := Nat.exists_eq_succ_of_ne_zero (Nat.ne_of_gt positive)
    have none_ : expression (n + 1) 0 finish (closing :: rest) = .ok none (closing :: rest) :=
      deepen_ok_iff.mpr (expressionBody_none (headKind_cons.mpr closes.starts_nothing))
    refine .reads ?_ (Nat.zero_le _)
    simp [moreItems, startsWith, separated, consume_run, none_]
  | .last first => by
    intro n finish comma closing rest budget positive closes separated enough
    obtain ⟨b, budget, rfl, shorter⟩ := budget_cons enough
    have stop := closes.head rest
    have item := first.leads n finish _ (ends_operand stop) (bounded_of_ends stop _)
    refine .past (nextIs_run _) ?_
    rw [if_pos (by simp [startsWith, separated])]
    refine .past (consume_run (by simp [separated])) (item.done ?_)
    simp [moreItems_stop (headKind_cons.mpr closes.not_comma)]
  | @Items.cons _ _ _ _ us _ _ first next others => by
    intro n finish comma closing rest budget positive closes separated enough
    obtain ⟨b, budget, rfl, shorter⟩ := budget_cons enough
    have stop := comma_ends next (us ++ closing :: rest)
    have item := first.leads n finish _ (ends_operand stop) (bounded_of_ends stop _)
    simp only [List.append_assoc, List.cons_append] at shorter ⊢
    refine .past (nextIs_run _) ?_
    rw [if_pos (by simp [startsWith, separated])]
    refine .past (consume_run (by simp [separated])) ?_
    refine (item.bind fun _ => ?_).iff Nat.max_le.symm
    refine (others.leads_more n finish _ closing rest budget positive closes next ?_).done rfl
    exact Nat.le_trans (by simp) shorter

/-- Whatever has been read of a chain, the budget of the operator loop covers what is left. -/
theorem Grammar.Chain.leads {m d : Nat} {ceiling : Option Nat} {ts : List Token} {node : Node} :
    Chain m ceiling d ts node → ∀ (n : Nat) (finish : Location) (rest : List Token),
      HeadKind EndsOperand rest → Bounded ceiling rest →
      ∃ budget, rest.length ≤ budget.length ∧
        Leads finish (d ≤ n) (expressionBody (expression n) m) (ts ++ rest)
          (remaining (expression n) m budget node) rest
  | .primary operand => by
    intro n finish rest ends bounded
    exact ⟨rest, Nat.le_refl _, operand.leads n m finish rest ends⟩
  | @Chain.operator _ _ _ _ ceiling op _ us _ _ before precedence tighter below operand => by
    intro n finish rest ends bounded
    have next : HeadKind EndsOperand (op :: (us ++ rest)) :=
      headKind_cons.mpr (endsOperand_of_operator precedence)
    have limited : Bounded ceiling (op :: (us ++ rest)) := by
      intro c member
      refine headKind_cons.mpr ?_
      intro q operator
      rw [precedence] at operator
      exact Option.some.inj operator ▸ below c member
    obtain ⟨budget, enough, leads⟩ := before.leads n finish (op :: (us ++ rest)) next limited
    obtain ⟨b, budget, rfl, shorter⟩ := budget_cons enough
    refine ⟨budget, Nat.le_trans (by simp) shorter, ?_⟩
    simp only [List.append_assoc, List.cons_append]
    have right := operand.leads n finish rest ends bounded
    refine (leads.trans fun _ => .of_eq (remaining_operator precedence tighter) ?_).iff
      Nat.max_le.symm
    exact right.required.under _

/-- A negation ends the expression, so it bounds the operator after it by nothing. -/
theorem Grammar.Expression.leads {m d : Nat} {ts : List Token} {node : Node} :
    Expression m d ts node → ∀ (n : Nat) (finish : Location) (rest : List Token),
      HeadKind EndsOperand rest → Bounded (ceilingAfter m ts) rest →
      Leads finish (d ≤ n) (expression n m) (ts ++ rest) (pure (some node)) rest
  | @Expression.negation _ _ _ ts _ kind inside => by
    intro n finish rest ends bounded
    cases n with
    | zero => exact .tooDeep (by omega)
    | succ n =>
      have operand := inside.leads n finish rest ends (bounded_notPrecedence ts rest)
      refine Leads.deepen (.of_eq (expressionBody_negation kind) ?_)
      exact ((negation_inside kind operand).done rfl).iff Nat.succ_le_succ_iff.symm
  | .chain operands => by
    intro n finish rest ends bounded
    cases n with
    | zero => exact .tooDeep (by omega)
    | succ n =>
      have follows := bounded m (by simp [ceilingAfter, operands.not_bang])
      obtain ⟨budget, _, body⟩ := operands.leads n finish rest ends (operands.bounded follows)
      refine Leads.deepen ((body.to_eq ?_).iff Nat.succ_le_succ_iff.symm)
      simp [remaining, operators_stop follows]

end

end ShiFormat
