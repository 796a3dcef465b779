import ShiFormat.Proofs.Parsing.Statement

/-!
Whatever the parser reads is a phrase of the grammar, of no greater depth than the levels it was
given, and with the tree that the parser yields.
-/
namespace ShiFormat
open Grammar Parse

namespace Parse
variable {α β : Type} {finish : Location} {ts rest : List Token}

theorem consume_bind {kinds : List TokenKind} {next : Token → Parse β} {value : β}
    (run : (consume kinds >>= next) finish ts = .ok value rest) :
    ∃ t more, ts = t :: more ∧ t.kind ∈ kinds ∧ next t finish more = .ok value rest := by
  obtain ⟨t, more, consumed, next_run⟩ := bind_ok_iff.mp run
  obtain ⟨rfl, expected⟩ := consume_ok_iff.mp consumed
  exact ⟨t, more, rfl, expected, next_run⟩

theorem nextIs_bind {kind : TokenKind} {next : Bool → Parse β} {value : β}
    (run : (nextIs kind >>= next) finish ts = .ok value rest) :
    next (startsWith kind ts) finish ts = .ok value rest := run

theorem unread_bind {next : List Token → Parse β} {value : β}
    (run : (unread >>= next) finish ts = .ok value rest) : next ts finish ts = .ok value rest := run

theorem here_bind {next : Location → Parse β} {value : β}
    (run : (here >>= next) finish ts = .ok value rest) :
    next ((ts.head?.map Token.location).getD finish) finish ts = .ok value rest := run

theorem kindAt_bind {ahead : Nat} {next : Option TokenKind → Parse β} {value : β}
    (run : (kindAt ahead >>= next) finish ts = .ok value rest) :
    next (ts[ahead]?.map Token.kind) finish ts = .ok value rest := run

theorem expectAt_ok {ahead : Nat} {kinds : List TokenKind} {t : Token}
    (run : expectAt ahead kinds finish ts = .ok t rest) :
    ts[ahead]? = some t ∧ t.kind ∈ kinds ∧ ts = rest := by
  unfold expectAt at run
  split at run
  · simp at run
  · next token at_ =>
    split at run
    · next expected =>
      simp only [Reply.ok.injEq] at run
      obtain ⟨rfl, rfl⟩ := run
      exact ⟨at_, expected, rfl⟩
    · simp at run

theorem pure_ok {value result : α} (run : (pure value : Parse α) finish ts = .ok result rest) :
    result = value ∧ ts = rest := by
  simp only [pure_run, Reply.ok.injEq] at run
  exact ⟨run.1.symm, run.2⟩

end Parse

/-- The tokens up to `rest` make such a phrase, nested within `n` levels. -/
def Uses (n : Nat) (phrase : Nat → List Token → Prop) (ts rest : List Token) : Prop :=
  ∃ used d, ts = used ++ rest ∧ d ≤ n ∧ phrase d used

/-- The tokens stand for an expression, and what follows them does not go on with it. -/
def WholeExpression (m d : Nat) (used rest : List Token) (node : Node) : Prop :=
  Expression m d used node ∧ Bounded (ceilingAfter m used) rest

/-- Either there are no more items, or a comma and the items after it. -/
def UsesMore (n : Nat) (items : List Node) (ts rest : List Token) : Prop :=
  (ts = rest ∧ items = []) ∨ ∃ comma more, ts = comma :: more ∧ comma.kind = .comma ∧
    Uses n (Items · · items) more rest

/-- A rule that reads only expressions that nest within `n` levels, and stops where they end. -/
structure SoundRule (n : Nat) (expr : ExpressionRule) : Prop where
  found : ∀ {m finish ts node rest}, expr m finish ts = .ok (some node) rest →
    Uses n (WholeExpression m · · rest node) ts rest
  absent : ∀ {m finish ts rest}, expr m finish ts = .ok none rest → rest = ts

section
variable {n m : Nat} {expr : ExpressionRule} {finish : Location} {ts rest : List Token}

theorem SoundRule.required (sound : SoundRule n expr) {missing : Missing} {node : Node}
    (run : required expr m missing finish ts = .ok node rest) :
    Uses n (WholeExpression m · · rest node) ts rest := by
  obtain ⟨result, mid, first, last⟩ := bind_ok_iff.mp (here_bind run)
  cases result with
  | none => simp [fail] at last
  | some item =>
    obtain ⟨rfl, rfl⟩ := pure_ok last
    exact sound.found first

theorem UsesMore.after {mid : List Token} {item : Node} {more : List Node}
    (later : UsesMore n more mid rest) (first : Uses n (WholeExpression 0 · · mid item) ts mid) :
    Uses n (Items · · (item :: more)) ts rest := by
  obtain ⟨used, d, rfl, within, derived, _⟩ := first
  rcases later with ⟨rfl, rfl⟩ | ⟨comma, _, rfl, kind, others, e, rfl, within', derived'⟩
  · exact ⟨used, d, rfl, within, .last derived⟩
  · exact ⟨used ++ comma :: others, max d e, by simp, Nat.max_le.mpr ⟨within, within'⟩,
      .cons derived kind derived'⟩

theorem SoundRule.moreItems (sound : SoundRule n expr) {budget : List Token} {items : List Node}
    (run : moreItems expr budget finish ts = .ok items rest) : UsesMore n items ts rest := by
  induction budget generalizing ts items with
  | nil => exact .inl (pure_ok run).symm
  | cons b budget ih =>
    have branch := nextIs_bind run
    split at branch
    · obtain ⟨comma, ts, rfl, kind, item_run⟩ := consume_bind branch
      rw [List.mem_singleton] at kind
      obtain ⟨result, mid, first, more_run⟩ := bind_ok_iff.mp item_run
      cases result with
      | none =>
        obtain ⟨rfl, rfl⟩ := pure_ok more_run
        exact .inr ⟨comma, ts, rfl, kind, [], 0, sound.absent first ▸ rfl, Nat.zero_le n, .nil⟩
      | some item =>
        obtain ⟨more, mid, later, last⟩ := bind_ok_iff.mp more_run
        obtain ⟨rfl, rfl⟩ := pure_ok last
        exact .inr ⟨comma, ts, rfl, kind, (ih later).after (sound.found first)⟩
    · exact .inl (pure_ok branch).symm

theorem SoundRule.itemsUntil (sound : SoundRule n expr) {close : TokenKind} {items : List Node}
    (run : itemsUntil expr close finish ts = .ok items rest) :
    Uses n (Items · · items) ts rest := by
  have branch := nextIs_bind run
  split at branch
  · obtain ⟨rfl, rfl⟩ := pure_ok branch
    exact ⟨[], 0, rfl, Nat.zero_le n, .nil⟩
  · obtain ⟨item, mid, first, more_run⟩ := bind_ok_iff.mp branch
    obtain ⟨more, _, later, last⟩ := bind_ok_iff.mp (unread_bind more_run)
    obtain ⟨rfl, rfl⟩ := pure_ok last
    exact (sound.moreItems later).after (sound.required first)

theorem SoundRule.callHead (sound : SoundRule n expr) {id : Token} {arguments : List Node}
    (run : callHead expr finish ts = .ok (id, arguments) rest) :
    Uses n (CallHead · · id arguments) ts rest := by
  obtain ⟨name, ts, rfl, kind, open_run⟩ := consume_bind run
  obtain ⟨opening, ts, rfl, opens, items_run⟩ := consume_bind open_run
  obtain ⟨items, mid, inside, close_run⟩ := bind_ok_iff.mp items_run
  obtain ⟨closing, mid, rfl, closes, last⟩ := consume_bind close_run
  obtain ⟨same, rfl⟩ := pure_ok last
  obtain ⟨rfl, rfl⟩ := Prod.mk.inj same
  obtain ⟨used, d, rfl, within, derived⟩ := sound.itemsUntil inside
  rw [List.mem_singleton] at kind opens closes
  exact ⟨_, d, by simp, within, .applied kind opens derived closes⟩

theorem SoundRule.access (sound : SoundRule n expr) {node : Node}
    (run : access expr finish ts = .ok node rest) :
    Uses n (Primary · · node) ts rest := by
  obtain ⟨id, ts, rfl, kind, next_run⟩ := consume_bind run
  rw [List.mem_singleton] at kind
  have branch := nextIs_bind next_run
  split at branch
  · obtain ⟨opening, ts, rfl, opens, index_run⟩ := consume_bind branch
    obtain ⟨index, mid, inside, close_run⟩ := bind_ok_iff.mp index_run
    obtain ⟨closing, mid, rfl, closes, last⟩ := consume_bind close_run
    obtain ⟨rfl, rfl⟩ := pure_ok last
    obtain ⟨used, d, rfl, within, derived, _⟩ := sound.required inside
    rw [List.mem_singleton] at opens closes
    exact ⟨_, d, by simp, within, .arrayAccess kind opens derived closes⟩
  · have dot_branch := nextIs_bind branch
    split at dot_branch
    · obtain ⟨dot, ts, rfl, dotted, inner_run⟩ := consume_bind dot_branch
      obtain ⟨inner, ts, rfl, member, last⟩ := consume_bind inner_run
      obtain ⟨rfl, rfl⟩ := pure_ok last
      rw [List.mem_singleton] at dotted member
      exact ⟨[id, dot, inner], 0, rfl, Nat.zero_le n, .scopeAccess kind dotted member⟩
    · obtain ⟨rfl, rfl⟩ := pure_ok dot_branch
      exact ⟨[id], 0, rfl, Nat.zero_le n, .identifier kind⟩

theorem SoundRule.named (sound : SoundRule n expr) {node : Node}
    (run : named expr finish ts = .ok node rest) :
    Uses n (Primary · · node) ts rest := by
  have branch := kindAt_bind run
  split at branch
  · obtain ⟨⟨id, arguments⟩, mid, head, last⟩ := bind_ok_iff.mp branch
    obtain ⟨rfl, rfl⟩ := pure_ok last
    obtain ⟨used, d, split, within, derived⟩ := sound.callHead head
    exact ⟨used, d, split, within, .call derived⟩
  · exact sound.access branch

theorem SoundRule.parenthesized (sound : SoundRule n expr) {node : Node}
    (run : parenthesized expr finish ts = .ok node rest) :
    Uses n (Primary · · node) ts rest := by
  obtain ⟨opening, ts, rfl, opens, inner_run⟩ := consume_bind run
  obtain ⟨inner, mid, inside, close_run⟩ := bind_ok_iff.mp inner_run
  obtain ⟨closing, mid, rfl, closes, last⟩ := consume_bind close_run
  obtain ⟨rfl, rfl⟩ := pure_ok last
  obtain ⟨used, d, rfl, within, derived, _⟩ := sound.required inside
  rw [List.mem_singleton] at opens closes
  exact ⟨_, d, by simp, within, .parenthesized opens derived closes⟩

theorem SoundRule.bracketed (sound : SoundRule n expr) {node : Node}
    (run : bracketed expr finish ts = .ok node rest) :
    Uses n (Primary · · node) ts rest := by
  obtain ⟨opening, ts, rfl, opens, items_run⟩ := consume_bind run
  obtain ⟨items, mid, inside, close_run⟩ := bind_ok_iff.mp items_run
  obtain ⟨closing, mid, rfl, closes, last⟩ := consume_bind close_run
  obtain ⟨rfl, rfl⟩ := pure_ok last
  obtain ⟨used, d, rfl, within, derived⟩ := sound.itemsUntil inside
  rw [List.mem_singleton] at opens closes
  exact ⟨_, d, by simp, within, .bracketed opens derived closes⟩

theorem sound_literal {node : Node}
    (run : (do let value ← consume TokenKind.literals; pure (.literal value) : Parse Node)
      finish ts = .ok node rest) :
    Uses n (Primary · · node) ts rest := by
  obtain ⟨value, ts, rfl, kind, last⟩ := consume_bind run
  obtain ⟨rfl, rfl⟩ := pure_ok last
  exact ⟨[value], 0, rfl, Nat.zero_le n, .literal kind⟩

/-- The invariant of the operator loop: what has been read is a chain, and the tokens left respect
its ceiling. -/
theorem SoundRule.operators (sound : SoundRule n expr) {budget seen : List Token} {d : Nat}
    {ceiling : Option Nat} {left node : Node} (enough : ts.length ≤ budget.length)
    (before : Chain m ceiling d seen left) (within : d ≤ n) (bounded : Bounded ceiling ts)
    (run : operators expr m budget left finish ts = .ok node rest) :
    ∃ used e ceiling, ts = used ++ rest ∧ e ≤ n ∧ Chain m ceiling e (seen ++ used) node ∧
      HeadKind (NotTighter m) rest := by
  induction budget generalizing ts seen d ceiling left with
  | nil =>
    obtain ⟨rfl, rfl⟩ := pure_ok run
    have none_left : ts = [] := List.length_eq_zero_iff.mp (Nat.le_zero.mp enough)
    exact ⟨[], d, ceiling, rfl, within, by simpa using before, none_left ▸ headKind_nil _⟩
  | cons b budget ih =>
    have branch := kindAt_bind run
    cases ts with
    | nil =>
      obtain ⟨rfl, rfl⟩ := pure_ok branch
      exact ⟨[], d, ceiling, rfl, within, by simpa using before, headKind_nil _⟩
    | cons op ts =>
      simp only [List.getElem?_cons_zero, Option.map_some] at branch
      cases precedence : op.kind.binaryPrecedence? with
      | none =>
        simp only [precedence] at branch
        obtain ⟨rfl, rfl⟩ := pure_ok branch
        refine ⟨[], d, ceiling, rfl, within, by simpa using before, headKind_cons.mpr ?_⟩
        intro p operator
        simp [precedence] at operator
      | some p =>
        simp only [precedence] at branch
        split at branch
        · next loose =>
          obtain ⟨rfl, rfl⟩ := pure_ok branch
          refine ⟨[], d, ceiling, rfl, within, by simpa using before, headKind_cons.mpr ?_⟩
          intro q operator
          cases precedence.symm.trans operator
          exact loose
        · next tight =>
          obtain ⟨_, _, split, _, right_run⟩ := consume_bind branch
          obtain ⟨rfl, rfl⟩ := List.cons.inj split
          obtain ⟨right, mid, operand, loop⟩ := bind_ok_iff.mp right_run
          obtain ⟨us, e, rfl, within', derived, bounded'⟩ := sound.required operand
          have below : ∀ c ∈ ceiling, p ≤ c := fun c member =>
            headKind_cons.mp (bounded c member) p precedence
          have chain := Chain.operator before precedence (Nat.not_le.mp tight) below derived
          have enough' : mid.length ≤ budget.length := by simp at enough; omega
          obtain ⟨used, f, ceiling, rfl, within'', all, stops⟩ :=
            ih enough' chain (Nat.max_le.mpr ⟨within, within'⟩) bounded' loop
          exact ⟨op :: (us ++ used), f, ceiling, by simp, within'', by simpa using all, stops⟩

theorem SoundRule.chain (sound : SoundRule n expr) {first : Parse Node} {result : Option Node}
    (operand : ∀ {node rest}, first finish ts = .ok node rest →
      Uses n (Primary · · node) ts rest)
    (run : chain expr m first finish ts = .ok result rest) :
    ∃ node, result = some node ∧
      Uses n (fun d used => WholeExpression m (d + 1) used rest node) ts rest := by
  obtain ⟨left, mid, first_run, loop_run⟩ := bind_ok_iff.mp run
  obtain ⟨node, _, loop, last⟩ := bind_ok_iff.mp (unread_bind loop_run)
  obtain ⟨rfl, rfl⟩ := pure_ok last
  obtain ⟨seen, d, rfl, within, derived⟩ := operand first_run
  obtain ⟨used, e, ceiling, rfl, within', all, stops⟩ :=
    sound.operators (Nat.le_refl _) (.primary derived) within (by simp [Bounded]) loop
  refine ⟨node, rfl, seen ++ used, e, by simp, within', .chain all, ?_⟩
  intro c member
  rw [eq_of_mem_ceilingAfter member]
  exact stops

theorem SoundRule.body (sound : SoundRule n expr) {result : Option Node}
    (run : expressionBody expr m finish ts = .ok result rest) :
    (result = none ∧ rest = ts) ∨ ∃ node, result = some node ∧
      Uses n (fun d used => WholeExpression m (d + 1) used rest node) ts rest := by
  have branch := kindAt_bind run
  generalize ts[0]?.map Token.kind = next at branch
  split at branch
  · obtain ⟨node, mid, negated, last⟩ := bind_ok_iff.mp branch
    obtain ⟨rfl, rfl⟩ := pure_ok last
    obtain ⟨bang, ts, rfl, kind, operand_run⟩ := consume_bind negated
    obtain ⟨operand, mid, inside, last⟩ := bind_ok_iff.mp operand_run
    obtain ⟨rfl, rfl⟩ := pure_ok last
    obtain ⟨used, d, rfl, within, derived, _⟩ := sound.required inside
    rw [List.mem_singleton] at kind
    refine .inr ⟨_, rfl, bang :: used, d, rfl, within, .negation kind derived, ?_⟩
    simp [ceilingAfter, startsWith, kind, Bounded]
  · exact .inr (sound.chain sound.named branch)
  · exact .inr (sound.chain sound.parenthesized branch)
  · exact .inr (sound.chain sound.bracketed branch)
  · split at branch
    · exact .inr (sound.chain sound_literal branch)
    · obtain ⟨rfl, rfl⟩ := pure_ok branch
      exact .inl ⟨rfl, rfl⟩
  · obtain ⟨rfl, rfl⟩ := pure_ok branch
    exact .inl ⟨rfl, rfl⟩

theorem expression_sound (n : Nat) : SoundRule n (expression n) := by
  induction n with
  | zero =>
    constructor
    · intro m finish ts node rest run
      simp [expression, tooDeep] at run
    · intro m finish ts rest run
      simp [expression, tooDeep] at run
  | succ n ih =>
    constructor
    · intro m finish ts node rest run
      rcases ih.body (deepen_ok_iff.mp run) with
        ⟨none_, _⟩ | ⟨found, same, used, d, split, within, whole⟩
      · cases none_
      · cases same
        exact ⟨used, d + 1, split, Nat.succ_le_succ within, whole⟩
    · intro m finish ts rest run
      rcases ih.body (deepen_ok_iff.mp run) with ⟨_, unread⟩ | ⟨found, same, _⟩
      · exact unread
      · cases same

end

/-- A rule for blocks that reads only blocks that nest within `n` levels. -/
def SoundBlock (n : Nat) (block : Parse (List Node)) : Prop :=
  ∀ {finish ts body rest}, block finish ts = .ok body rest →
    Uses n (Block · · body) ts rest

section
variable {n : Nat} {expr : ExpressionRule} {block : Parse (List Node)} {finish : Location}
  {ts rest : List Token}

theorem SoundBlock.guarded (sound : SoundRule n expr) (blocks : SoundBlock n block) {test : Node}
    {body : List Node} (run : guarded expr block finish ts = .ok (test, body) rest) :
    Uses n (Guarded · · test body) ts rest := by
  obtain ⟨word, ts, rfl, kind, open_run⟩ := consume_bind run
  obtain ⟨opening, ts, rfl, opens, test_run⟩ := consume_bind open_run
  obtain ⟨found, mid, inside, close_run⟩ := bind_ok_iff.mp test_run
  obtain ⟨closing, mid, rfl, closes, block_run⟩ := consume_bind close_run
  obtain ⟨_, _, braces, last⟩ := bind_ok_iff.mp block_run
  obtain ⟨same, rfl⟩ := pure_ok last
  obtain ⟨rfl, rfl⟩ := Prod.mk.inj same
  obtain ⟨used, d, rfl, within, derived, _⟩ := sound.required inside
  obtain ⟨us, e, rfl, within', derived'⟩ := blocks braces
  rw [List.mem_singleton] at kind opens closes
  exact ⟨_, max d e, by simp, Nat.max_le.mpr ⟨within, within'⟩,
    .guarded kind opens derived closes derived'⟩

theorem SoundBlock.alternative (sound : SoundRule n expr) (blocks : SoundBlock n block)
    {budget : List Token} {found : Alternative}
    (run : Parse.alternative expr block budget finish ts = .ok found rest) :
    Uses n (Otherwise · · found) ts rest := by
  induction budget generalizing ts found with
  | nil =>
    obtain ⟨rfl, rfl⟩ := pure_ok run
    exact ⟨[], 0, rfl, Nat.zero_le n, .absent⟩
  | cons b budget ih =>
    have branch := nextIs_bind run
    split at branch
    · obtain ⟨word, ts, rfl, kind, next_run⟩ := consume_bind branch
      rw [List.mem_singleton] at kind
      have inner := nextIs_bind next_run
      split at inner
      · obtain ⟨⟨test, body⟩, mid, guard, more_run⟩ := bind_ok_iff.mp inner
        obtain ⟨more, mid, later, last⟩ := bind_ok_iff.mp more_run
        obtain ⟨rfl, rfl⟩ := pure_ok last
        obtain ⟨used, d, rfl, within, derived⟩ := blocks.guarded sound guard
        obtain ⟨us, e, rfl, within', derived'⟩ := ih later
        exact ⟨_, max d e, by simp, Nat.max_le.mpr ⟨within, within'⟩,
          .elseIf kind derived derived'⟩
      · obtain ⟨body, mid, braces, last⟩ := bind_ok_iff.mp inner
        obtain ⟨rfl, rfl⟩ := pure_ok last
        obtain ⟨used, d, rfl, within, derived⟩ := blocks braces
        exact ⟨word :: used, d, rfl, within, .elseBlock kind derived⟩
    · obtain ⟨rfl, rfl⟩ := pure_ok branch
      exact ⟨[], 0, rfl, Nat.zero_le n, .absent⟩

theorem SoundBlock.condition (sound : SoundRule n expr) (blocks : SoundBlock n block) {node : Node}
    (run : condition expr block finish ts = .ok node rest) :
    Uses n (Statement · · node) ts rest := by
  obtain ⟨⟨test, body⟩, mid, guard, more_run⟩ := bind_ok_iff.mp run
  obtain ⟨more, _, later, last⟩ := bind_ok_iff.mp (unread_bind more_run)
  obtain ⟨rfl, rfl⟩ := pure_ok last
  obtain ⟨used, d, rfl, within, derived⟩ := blocks.guarded sound guard
  obtain ⟨us, e, rfl, within', derived'⟩ := blocks.alternative sound later
  exact ⟨_, max d e, by simp, Nat.max_le.mpr ⟨within, within'⟩, .condition derived derived'⟩

theorem SoundBlock.callStatement (sound : SoundRule n expr) (blocks : SoundBlock n block)
    {node : Node} (run : callStatement expr block finish ts = .ok node rest) :
    Uses n (Statement · · node) ts rest := by
  obtain ⟨⟨id, arguments⟩, mid, head, block_run⟩ := bind_ok_iff.mp run
  obtain ⟨used, d, rfl, within, derived⟩ := sound.callHead head
  have branch := nextIs_bind block_run
  split at branch
  · obtain ⟨body, _, braces, last⟩ := bind_ok_iff.mp branch
    obtain ⟨rfl, rfl⟩ := pure_ok last
    obtain ⟨us, e, rfl, within', derived'⟩ := blocks braces
    exact ⟨_, max d e, by simp, Nat.max_le.mpr ⟨within, within'⟩, .callBlock derived derived'⟩
  · obtain ⟨rfl, rfl⟩ := pure_ok branch
    exact ⟨used, d, rfl, within, .call derived⟩

theorem SoundRule.assignment (sound : SoundRule n expr) {id op : Token} {node : Node}
    (kind : id.kind = .identifier) (assigns : op.kind ∈ TokenKind.assignmentOperators)
    (run : assignment expr finish (id :: op :: ts) = .ok node rest) :
    Uses n (Statement · · node) (id :: op :: ts) rest := by
  obtain ⟨target, mid, target_run, op_run⟩ := bind_ok_iff.mp run
  rw [access_target kind assigns] at target_run
  cases target_run
  obtain ⟨_, _, split, _, value_run⟩ := consume_bind op_run
  obtain ⟨rfl, rfl⟩ := List.cons.inj split
  obtain ⟨value, _, right, last⟩ := bind_ok_iff.mp value_run
  obtain ⟨rfl, rfl⟩ := pure_ok last
  obtain ⟨used, d, rfl, within, derived, _⟩ := sound.required right
  exact ⟨id :: op :: used, d, rfl, within, .assignment kind assigns derived⟩

theorem SoundBlock.statement (sound : SoundRule n expr) (blocks : SoundBlock n block)
    {result : Option Node} (run : statement expr block finish ts = .ok result rest) :
    (result = none ∧ rest = ts) ∨ ∃ node, result = some node ∧
      Uses n (Statement · · node) ts rest := by
  have branch := kindAt_bind run
  generalize first : ts[0]?.map Token.kind = next at branch
  split at branch
  · obtain ⟨node, mid, conditional, last⟩ := bind_ok_iff.mp branch
    obtain ⟨rfl, rfl⟩ := pure_ok last
    exact .inr ⟨node, rfl, blocks.condition sound conditional⟩
  · obtain ⟨op, _, continuation, node_run⟩ := bind_ok_iff.mp branch
    obtain ⟨second, expected, rfl⟩ := expectAt_ok continuation
    split at node_run
    · obtain ⟨node, mid, call, last⟩ := bind_ok_iff.mp node_run
      obtain ⟨rfl, rfl⟩ := pure_ok last
      exact .inr ⟨node, rfl, blocks.callStatement sound call⟩
    · next no_call =>
      obtain ⟨node, mid, assigned, last⟩ := bind_ok_iff.mp node_run
      obtain ⟨rfl, rfl⟩ := pure_ok last
      have assigns : op.kind ∈ TokenKind.assignmentOperators := by
        simpa [continuations, TokenKind.assignmentOperators, no_call] using expected
      obtain ⟨id, more, rfl, kind⟩ : ∃ id more, ts = id :: op :: more ∧ id.kind = .identifier := by
        cases ts with
        | nil => simp at first
        | cons id ts =>
          cases ts with
          | nil => simp at second
          | cons next more => exact ⟨id, more, by simpa using second, by simpa using first⟩
      exact .inr ⟨node, rfl, sound.assignment kind assigns assigned⟩
  · obtain ⟨rfl, rfl⟩ := pure_ok branch
    exact .inl ⟨rfl, rfl⟩

theorem SoundBlock.statements (sound : SoundRule n expr) (blocks : SoundBlock n block)
    {budget : List Token} {body : List Node}
    (run : statements expr block budget finish ts = .ok body rest) :
    Uses n (Statements · · body) ts rest := by
  induction budget generalizing ts body with
  | nil =>
    obtain ⟨rfl, rfl⟩ := pure_ok run
    exact ⟨[], 0, rfl, Nat.zero_le n, .nil⟩
  | cons b budget ih =>
    obtain ⟨result, mid, first, more_run⟩ := bind_ok_iff.mp run
    rcases blocks.statement sound first with
      ⟨rfl, rfl⟩ | ⟨node, rfl, used, d, rfl, within, derived⟩
    · obtain ⟨rfl, rfl⟩ := pure_ok more_run
      exact ⟨[], 0, rfl, Nat.zero_le n, .nil⟩
    · obtain ⟨more, _, later, last⟩ := bind_ok_iff.mp more_run
      obtain ⟨rfl, rfl⟩ := pure_ok last
      obtain ⟨us, e, rfl, within', derived'⟩ := ih later
      exact ⟨used ++ us, max d e, by simp, Nat.max_le.mpr ⟨within, within'⟩,
        .cons derived derived'⟩

end

theorem block_sound (n : Nat) : SoundBlock n (block n) := by
  induction n with
  | zero =>
    intro finish ts body rest run
    simp [block, tooDeep] at run
  | succ n ih =>
    intro finish ts body rest run
    obtain ⟨opening, ts, rfl, opens, body_run⟩ := consume_bind (deepen_ok_iff.mp run)
    obtain ⟨found, _, inside, close_run⟩ := bind_ok_iff.mp (unread_bind body_run)
    obtain ⟨closing, _, rfl, closes, last⟩ := consume_bind close_run
    obtain ⟨rfl, rfl⟩ := pure_ok last
    obtain ⟨used, d, rfl, within, derived⟩ := SoundBlock.statements (expression_sound n) ih inside
    rw [List.mem_singleton] at opens closes
    exact ⟨_, d + 1, by simp, Nat.succ_le_succ within, .braced opens derived closes⟩

end ShiFormat
