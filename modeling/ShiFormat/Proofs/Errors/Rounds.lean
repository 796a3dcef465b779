import ShiFormat.Proofs.Errors.Prompt

/-!
Repetitions without their budgets. Every round of a repetition reads a token before it goes on, so
all budgets that cover the tokens left come to the same, and a repetition can be said to go on with
itself.
-/
namespace ShiFormat
open Grammar Parse

/-- A loop over a budget and a state, whose round goes on only with fewer tokens. -/
structure Repeats {σ α : Type} (round : (σ → Parse α) → σ → Parse α)
    (loop : List Token → σ → Parse α) : Prop where
  unfolds : ∀ b budget s, loop (b :: budget) s = round (loop budget) s
  spent : ∀ budget s finish, loop budget s finish [] = loop [] s finish []
  shortens : ∀ {more other : σ → Parse α} {finish : Location} {ts : List Token} (s : σ),
    (∀ s' rest, rest.length < ts.length → more s' finish rest = other s' finish rest) →
    round more s finish ts = round other s finish ts

namespace Repeats
variable {σ α : Type} {round : (σ → Parse α) → σ → Parse α} {loop : List Token → σ → Parse α}
  {finish : Location}

/-- The induction is on one budget; the other one is at hand whenever a token is left. -/
theorem budget_irrelevant (repeats : Repeats round loop) {budget other ts : List Token} (s : σ)
    (enough : ts.length ≤ budget.length) (enough' : ts.length ≤ other.length) :
    loop budget s finish ts = loop other s finish ts := by
  induction budget generalizing other ts s with
  | nil =>
    obtain rfl := List.length_eq_zero_iff.mp (Nat.le_zero.mp enough)
    exact (repeats.spent other s finish).symm
  | cons b budget ih =>
    cases other with
    | nil =>
      obtain rfl := List.length_eq_zero_iff.mp (Nat.le_zero.mp enough')
      exact repeats.spent _ s finish
    | cons c other =>
      rw [repeats.unfolds, repeats.unfolds]
      apply repeats.shortens
      intro s' rest shorter
      simp only [List.length_cons] at enough enough'
      exact ih s' (by omega) (by omega)

theorem equation (repeats : Repeats round loop) (s : σ) (finish : Location) (ts : List Token) :
    loop ts s finish ts = round (fun s finish ts => loop ts s finish ts) s finish ts := by
  cases ts with
  | nil =>
    rw [← repeats.spent [.endOfInput finish], repeats.unfolds]
    apply repeats.shortens
    intro s' rest shorter
    simp at shorter
  | cons t ts =>
    rw [repeats.unfolds]
    apply repeats.shortens
    intro s' rest shorter
    exact repeats.budget_irrelevant s' (Nat.le_of_lt_succ shorter) (Nat.le_refl _)

end Repeats

section
variable {n : Nat} {expr : ExpressionRule} {block : Parse (List Node)} {finish : Location}
  {ts rest : List Token}

theorem Uses.length_le {phrase : Nat → List Token → Prop} (uses : Uses n phrase ts rest) :
    rest.length ≤ ts.length := by
  obtain ⟨used, _, rfl, _⟩ := uses
  simp

theorem SoundRule.length_le (sound : SoundRule n expr) {m : Nat} {result : Option Node}
    (run : expr m finish ts = .ok result rest) : rest.length ≤ ts.length := by
  cases result with
  | none => exact Nat.le_of_eq (congrArg List.length (sound.absent run))
  | some node => exact (sound.found run).length_le

/-- Behind a token and some more there are fewer tokens left. -/
theorem length_lt_of_split {t : Token} {us used left : List Token} (split : us = used ++ left) :
    left.length < (t :: us).length := by
  rw [split, List.length_cons, List.length_append]
  omega

namespace Parse

theorem nextIs_ok {kind : TokenKind} {value : Bool}
    (run : nextIs kind finish ts = .ok value rest) : startsWith kind ts = value ∧ ts = rest := by
  simpa using run

theorem kindAt_ok {ahead : Nat} {value : Option TokenKind}
    (run : kindAt ahead finish ts = .ok value rest) :
    ts[ahead]?.map Token.kind = value ∧ ts = rest := by
  simpa using run

theorem consume_shortens {kinds : List TokenKind} {t : Token}
    (run : consume kinds finish ts = .ok t rest) : rest.length < ts.length := by
  obtain ⟨rfl, _⟩ := consume_ok_iff.mp run
  exact Nat.lt_succ_self _

theorem statement_shortens (sound : SoundRule n expr) (blocks : SoundBlock n block) {node : Node}
    (run : statement expr block finish ts = .ok (some node) rest) : rest.length < ts.length := by
  rcases blocks.statement sound run with ⟨none_, _⟩ | ⟨_, _, used, d, rfl, _, derived⟩
  · cases none_
  · obtain ⟨t, more, rfl, _⟩ := derived.starts
    exact length_lt_of_split rfl

/-- One round of `moreItems`, which goes on as `more`. -/
def itemsRound (expr : ExpressionRule) (more : Parse (List Node)) : Parse (List Node) := do
  if ← nextIs .comma then
    let _ ← consume [.comma]
    match ← expr 0 with
    | some item => do
      let items ← more
      pure (item :: items)
    | none => pure []
  else pure []

theorem moreItems_repeats (sound : SoundRule n expr) :
    Repeats (fun more (_ : Unit) => itemsRound expr (more ()))
      (fun budget _ => moreItems expr budget) where
  unfolds b budget _ := rfl
  spent budget _ finish := moreItems_stop (headKind_nil _)
  shortens := by
    intro more other finish ts _ same
    refine bind_congr fun comma rest run => ?_
    obtain ⟨rfl, rfl⟩ := nextIs_ok run
    split
    · refine bind_congr fun comma mid comma_run => bind_congr fun item rest item_run => ?_
      cases item with
      | none => rfl
      | some item =>
        apply bind_eq
        apply same
        exact Nat.lt_of_le_of_lt (sound.length_le item_run) (consume_shortens comma_run)
    · rfl

/-- One round of `operators`. -/
def operatorRound (expr : ExpressionRule) (minimum : Nat) (more : Node → Parse Node)
    (left : Node) : Parse Node := do
  match ← kindAt 0 with
  | none => pure left
  | some kind =>
    match kind.binaryPrecedence? with
    | none => pure left
    | some precedence =>
      if precedence ≤ minimum then pure left
      else do
        let op ← consume [kind]
        let right ← required expr precedence .rightOperand
        more (.binaryOp op left right)

theorem operators_repeat (sound : SoundRule n expr) (m : Nat) :
    Repeats (operatorRound expr m) (fun budget left => operators expr m budget left) where
  unfolds b budget left := rfl
  spent budget left finish := operators_stop (headKind_nil _)
  shortens := by
    intro more other finish ts left same
    refine bind_congr fun next rest run => ?_
    obtain ⟨_, rfl⟩ := kindAt_ok run
    cases next with
    | none => rfl
    | some kind =>
      dsimp only
      cases kind.binaryPrecedence? with
      | none => rfl
      | some precedence =>
        dsimp only
        split
        · rfl
        · refine bind_congr fun op mid op_run => bind_congr fun right rest right_run => ?_
          apply same
          exact Nat.lt_of_le_of_lt (sound.required right_run).length_le (consume_shortens op_run)

/-- One round of `alternative`. -/
def elseRound (expr : ExpressionRule) (block : Parse (List Node)) (more : Parse Alternative) :
    Parse Alternative := do
  if ← nextIs .elseWord then
    let _ ← consume [.elseWord]
    if ← nextIs .ifWord then
      let (test, body) ← guarded expr block
      let others ← more
      pure (.elseIf test body others)
    else
      let body ← block
      pure (.elseBlock body)
  else pure .absent

theorem alternative_repeats (sound : SoundRule n expr) (blocks : SoundBlock n block) :
    Repeats (fun more (_ : Unit) => elseRound expr block (more ()))
      (fun budget _ => alternative expr block budget) where
  unfolds b budget _ := rfl
  spent budget _ finish := by cases budget <;> rfl
  shortens := by
    intro more other finish ts _ same
    refine bind_congr fun word rest run => ?_
    obtain ⟨rfl, rfl⟩ := nextIs_ok run
    split
    · refine bind_congr fun word mid word_run => bind_congr fun conditional rest run => ?_
      obtain ⟨rfl, rfl⟩ := nextIs_ok run
      split
      · refine bind_congr fun guard rest guard_run => ?_
        apply bind_eq
        apply same
        exact Nat.lt_of_le_of_lt (blocks.guarded sound guard_run).length_le
          (consume_shortens word_run)
      · rfl
    · rfl

/-- One round of `statements`. -/
def statementRound (expr : ExpressionRule) (block : Parse (List Node))
    (more : Parse (List Node)) : Parse (List Node) := do
  match ← statement expr block with
  | none => pure []
  | some first => do
    let others ← more
    pure (first :: others)

theorem statements_repeat (sound : SoundRule n expr) (blocks : SoundBlock n block) :
    Repeats (fun more (_ : Unit) => statementRound expr block (more ()))
      (fun budget _ => statements expr block budget) where
  unfolds b budget _ := rfl
  spent budget _ finish := by cases budget <;> rfl
  shortens := by
    intro more other finish ts _ same
    refine bind_congr fun first rest run => ?_
    cases first with
    | none => rfl
    | some first =>
      apply bind_eq
      apply same
      exact statement_shortens sound blocks run

/-- The items after one that has been read. -/
def separated (expr : ExpressionRule) : Parse (List Node) := do moreItems expr (← unread)

/-- The operators after an operand, and their right operands. -/
def climb (expr : ExpressionRule) (minimum : Nat) (left : Node) : Parse Node := do
  operators expr minimum (← unread) left

/-- What follows the body of a condition. -/
def otherwise (expr : ExpressionRule) (block : Parse (List Node)) : Parse Alternative := do
  alternative expr block (← unread)

/-- Statements as far as there are any. -/
def listing (expr : ExpressionRule) (block : Parse (List Node)) : Parse (List Node) := do
  statements expr block (← unread)

theorem separated_eq (sound : SoundRule n expr) :
    separated expr = itemsRound expr (separated expr) :=
  funext fun finish => funext fun ts => (moreItems_repeats sound).equation () finish ts

theorem climb_eq (sound : SoundRule n expr) (m : Nat) (left : Node) :
    climb expr m left = operatorRound expr m (climb expr m) left :=
  funext fun finish => funext fun ts => (operators_repeat sound m).equation left finish ts

theorem otherwise_eq (sound : SoundRule n expr) (blocks : SoundBlock n block) :
    otherwise expr block = elseRound expr block (otherwise expr block) :=
  funext fun finish => funext fun ts => (alternative_repeats sound blocks).equation () finish ts

theorem listing_eq (sound : SoundRule n expr) (blocks : SoundBlock n block) :
    listing expr block = statementRound expr block (listing expr block) :=
  funext fun finish => funext fun ts => (statements_repeat sound blocks).equation () finish ts

end Parse
end
end ShiFormat
