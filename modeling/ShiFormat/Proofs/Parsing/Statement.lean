import ShiFormat.Parser.Statement
import ShiFormat.Proofs.Parsing.Expression

/-!
The parser reads every list of statements of the grammar as the grammar assigns it, up to a closing
brace or the end of the input, or refuses it for its nesting.
-/
namespace ShiFormat
open Grammar Parse

/-- A token of this kind cannot continue a statement. -/
def EndsStatement (kind : TokenKind) : Prop :=
  kind = .ifWord ∨ kind = .identifier ∨ kind = .rightBrace

theorem EndsStatement.ends {kind : TokenKind} (ends : EndsStatement kind) :
    EndsExpression kind ∧ kind ≠ .leftBrace ∧ kind ≠ .elseWord := by
  rcases ends with rfl | rfl | rfl <;>
    simp [EndsExpression, EndsOperand, TokenKind.binaryPrecedence?]

theorem Grammar.CallHead.starts {d : Nat} {ts : List Token} {id : Token} {arguments : List Node}
    (h : CallHead d ts id arguments) :
    ∃ opening more, ts = id :: opening :: more ∧ id.kind = .identifier ∧
      opening.kind = .leftParen := by
  cases h with
  | applied kind opens inside closes => exact ⟨_, _, rfl, kind, opens⟩

theorem Grammar.Guarded.starts {d : Nat} {ts : List Token} {test : Node} {body : List Node}
    (h : Guarded d ts test body) : ∃ t more, ts = t :: more ∧ t.kind = .ifWord := by
  cases h with
  | guarded kind => exact ⟨_, _, rfl, kind⟩

theorem Grammar.Statement.starts {d : Nat} {ts : List Token} {node : Node}
    (h : Statement d ts node) :
    ∃ t more, ts = t :: more ∧ (t.kind = .ifWord ∨ t.kind = .identifier) := by
  cases h with
  | assignment kind => exact ⟨_, _, rfl, .inr kind⟩
  | call head | callBlock head =>
    obtain ⟨opening, more, rfl, kind, _⟩ := head.starts
    exact ⟨_, _, rfl, .inr kind⟩
  | condition guarded otherwise =>
    obtain ⟨t, more, rfl, kind⟩ := guarded.starts
    exact ⟨_, _, rfl, .inl kind⟩

/-- What follows a statement of a list is the next statement or the end of the list. -/
theorem Grammar.Statements.starts {d : Nat} {ts rest : List Token} {body : List Node}
    (h : Statements d ts body) (closed : HeadKind (· = .rightBrace) rest) :
    HeadKind EndsStatement (ts ++ rest) := by
  cases h with
  | nil => exact closed.mono fun _ brace => .inr (.inr brace)
  | cons first others =>
    obtain ⟨t, more, rfl, starts⟩ := first.starts
    exact headKind_cons.mpr (starts.imp id .inl)

namespace Parse
variable {expr : ExpressionRule} {block : Parse (List Node)} {finish : Location}
  {rest : List Token}

theorem statement_none (closed : HeadKind (· = .rightBrace) rest) :
    statement expr block finish rest = .ok none rest := by
  cases rest with
  | nil => simp [statement]
  | cons t rest => simp [statement, headKind_cons.mp closed]

theorem statement_condition {t : Token} (kind : t.kind = .ifWord) :
    statement expr block finish (t :: rest) =
      (do let node ← condition expr block; pure (some node) : Parse (Option Node)) finish
        (t :: rest) := by
  simp [statement, kind]

theorem statement_call {id opening : Token} (kind : id.kind = .identifier)
    (opens : opening.kind = .leftParen) :
    statement expr block finish (id :: opening :: rest) =
      (do let node ← callStatement expr block; pure (some node) : Parse (Option Node)) finish
        (id :: opening :: rest) := by
  simp [statement, kind, expectAt, continuations, opens]

theorem statement_assignment {id op : Token} (kind : id.kind = .identifier)
    (assigns : op.kind ∈ TokenKind.assignmentOperators) :
    statement expr block finish (id :: op :: rest) =
      (do let node ← assignment expr; pure (some node) : Parse (Option Node)) finish
        (id :: op :: rest) := by
  rcases TokenKind.mem_assignmentOperators.mp assigns with assigns | assigns | assigns <;>
    simp [statement, kind, expectAt, continuations, assigns]

theorem access_target {id op : Token} (kind : id.kind = .identifier)
    (assigns : op.kind ∈ TokenKind.assignmentOperators) :
    access expr finish (id :: op :: rest) = .ok (.identifier id) (op :: rest) := by
  rcases TokenKind.mem_assignmentOperators.mp assigns with assigns | assigns | assigns <;>
    simp [access, consume_run, kind, startsWith, assigns]

end Parse

mutual

theorem Grammar.Block.leads {d : Nat} {ts : List Token} {body : List Node} :
    Block d ts body → ∀ (n : Nat) (finish : Location) (rest : List Token),
      Leads finish (d ≤ n) (block n) (ts ++ rest) (pure body) rest
  | @Block.braced _ closing _ _ _ opens inside closes => by
    intro n finish rest
    cases n with
    | zero => exact .tooDeep (by omega)
    | succ n =>
      have closed : HeadKind (· = .rightBrace) (closing :: rest) := headKind_cons.mpr closes
      have body := inside.leads n finish (closing :: rest) _ closed (Nat.le_refl _)
      simp only [List.cons_append, List.append_assoc, List.nil_append]
      refine Leads.deepen (Leads.iff ?_ Nat.succ_le_succ_iff.symm)
      refine .past (consume_run (by simp [opens])) (.past unread_run (body.done ?_))
      simp [consume_run, closes]

theorem Grammar.Statements.leads {d : Nat} {ts : List Token} {body : List Node} :
    Statements d ts body → ∀ (n : Nat) (finish : Location) (rest budget : List Token),
      HeadKind (· = .rightBrace) rest → (ts ++ rest).length ≤ budget.length →
      Leads finish (d ≤ n) (statements (expression n) (block n) budget) (ts ++ rest) (pure body)
        rest
  | .nil => by
    intro n finish rest budget closed enough
    refine .reads ?_ (Nat.zero_le n)
    cases budget with
    | nil => rfl
    | cons b budget => simp [statements, statement_none closed]
  | .cons first others => by
    intro n finish rest budget closed enough
    have node := first.leads n finish _ (others.starts closed)
    obtain ⟨t, more, rfl, _⟩ := first.starts
    obtain ⟨b, budget, rfl, shorter⟩ := budget_cons enough
    rw [List.append_assoc]
    refine (node.bind fun _ => ?_).iff Nat.max_le.symm
    refine (others.leads n finish rest budget closed ?_).done rfl
    exact Nat.le_trans (by simp) shorter

theorem Grammar.Statement.leads {d : Nat} {ts : List Token} {node : Node} :
    Statement d ts node → ∀ (n : Nat) (finish : Location) (rest : List Token),
      HeadKind EndsStatement rest →
      Leads finish (d ≤ n) (statement (expression n) (block n)) (ts ++ rest) (pure (some node))
        rest
  | .assignment kind assigns right => by
    intro n finish rest ends
    have stop := ends.mono fun _ kind => kind.ends.1
    have value := right.leads n finish rest (ends_operand stop) (bounded_of_ends stop _)
    refine .of_eq (statement_assignment kind assigns) (Leads.done ?_ rfl)
    refine .past (access_target kind assigns) (.past (consume_run assigns) ?_)
    exact value.required.done rfl
  | .call head => by
    intro n finish rest ends
    have call := head.leads n finish rest
    have brace := startsWith_eq_false_iff.mpr (ends.mono fun _ kind => kind.ends.2.1)
    obtain ⟨opening, more, rfl, kind, opens⟩ := head.starts
    refine .of_eq (statement_call kind opens) (Leads.done ?_ rfl)
    refine call.done ?_
    simp [brace]
  | @Statement.callBlock _ _ _ _ us _ _ head braces => by
    intro n finish rest ends
    have call := head.leads n finish (us ++ rest)
    have body := braces.leads n finish rest
    obtain ⟨opening, more, rfl, kind, opens⟩ := head.starts
    rw [List.append_assoc]
    refine .of_eq (statement_call kind opens) (Leads.done ?_ rfl)
    refine (call.bind fun _ => .past (nextIs_run _) ?_).iff Nat.max_le.symm
    cases braces with
    | braced opening =>
      rw [if_pos (by simp [startsWith, opening])]
      exact body.done rfl
  | @Statement.condition _ _ _ us _ _ _ guard otherwise => by
    intro n finish rest ends
    have test := guard.leads n finish (us ++ rest)
    have no_else : HeadKind (· ≠ .elseWord) rest := ends.mono fun _ kind => kind.ends.2.2
    have more := otherwise.leads n finish rest _ no_else (Nat.le_refl _)
    rw [List.append_assoc]
    obtain ⟨t, tokens, rfl, kind⟩ := guard.starts
    refine .of_eq (statement_condition kind) (Leads.done ?_ rfl)
    refine (test.bind fun _ => .past unread_run ?_).iff Nat.max_le.symm
    exact more.done rfl

theorem Grammar.Guarded.leads {d : Nat} {ts : List Token} {test : Node} {body : List Node} :
    Guarded d ts test body → ∀ (n : Nat) (finish : Location) (rest : List Token),
      Leads finish (d ≤ n) (guarded (expression n) (block n)) (ts ++ rest) (pure (test, body)) rest
  | @Guarded.guarded _ _ _ _ _ _ us _ _ kind opens inside closes braces => by
    intro n finish rest
    have stop := ClosesItems.head (.inl closes) (us ++ rest)
    have test := inside.leads n finish _ (ends_operand stop) (bounded_of_ends stop _)
    have body := braces.leads n finish rest
    simp only [List.cons_append, List.append_assoc]
    refine .past (consume_run (by simp [kind])) (.past (consume_run (by simp [opens])) ?_)
    refine (test.required.bind fun _ => ?_).iff Nat.max_le.symm
    exact .past (consume_run (by simp [closes])) (body.done rfl)

theorem Grammar.Otherwise.leads {d : Nat} {ts : List Token} {alternative : Alternative} :
    Otherwise d ts alternative → ∀ (n : Nat) (finish : Location) (rest budget : List Token),
      HeadKind (· ≠ .elseWord) rest → (ts ++ rest).length ≤ budget.length →
      Leads finish (d ≤ n) (Parse.alternative (expression n) (block n) budget) (ts ++ rest)
        (pure alternative) rest
  | .absent => by
    intro n finish rest budget ends enough
    refine .reads ?_ (Nat.zero_le n)
    cases budget with
    | nil => rfl
    | cons b budget => simp [Parse.alternative, startsWith_eq_false_iff.mpr ends]
  | @Otherwise.elseIf _ _ _ _ us _ _ _ kind guard otherwise => by
    intro n finish rest budget ends enough
    obtain ⟨b, budget, rfl, shorter⟩ := budget_cons enough
    have test := guard.leads n finish (us ++ rest)
    have more := otherwise.leads n finish rest budget ends (Nat.le_trans (by simp) shorter)
    obtain ⟨t, tokens, rfl, if_⟩ := guard.starts
    simp only [List.cons_append, List.append_assoc] at test ⊢
    refine .past (nextIs_run _) ?_
    rw [if_pos (by simp [startsWith, kind])]
    refine .past (consume_run (by simp [kind])) (.past (nextIs_run _) ?_)
    rw [if_pos (by simp [startsWith, if_])]
    exact (test.bind fun _ => more.done rfl).iff Nat.max_le.symm
  | .elseBlock kind braces => by
    intro n finish rest budget ends enough
    obtain ⟨b, budget, rfl, shorter⟩ := budget_cons enough
    have body := braces.leads n finish rest
    refine .past (nextIs_run _) ?_
    rw [if_pos (by simp [startsWith, kind])]
    refine .past (consume_run (by simp [kind])) (.past (nextIs_run _) ?_)
    cases braces with
    | braced opens =>
      rw [if_neg (by simp [startsWith, opens])]
      exact body.done rfl

end

end ShiFormat
