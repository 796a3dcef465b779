import ShiFormat.Proofs.State.Steps

/-!
Every rule of the machine follows the parsing rule of its name. The repetitions have rounds enough,
because each round reads a token, and the recursion is deep enough, because no more levels than the
limit are ever open.
-/
namespace ShiFormat.Machine

/-- The precedences asked of a rule never lie above that of a negation. -/
def FollowsRule (n : Nat) (rule : Rule) (expr : Parse.ExpressionRule) : Prop :=
  ∀ minimum ≤ Parse.notPrecedence, Follows n (rule minimum) (expr minimum)

section
variable {n m : Nat} {rule : Rule} {expr : Parse.ExpressionRule} {w : Window} {s s' : Stand}

/-- There are more rounds than tokens left. -/
theorem Follows.repeats {α : Type} {loop : Nat → Machine α} {spec : Parse α}
    (agrees : ∀ count w s, Spare n w s → (w.unread s).length < count →
      Agrees w s (loop count) spec) : Follows n (do loop (← rounds)) spec := by
  intro w s spare
  refine (agrees _ w s spare ?_).of_eq (look_bind _ rfl) rfl
  rw [Window.unread, List.length_drop]
  omega

theorem FollowsRule.required (follows : FollowsRule n rule expr) {minimum : Nat}
    (low : minimum ≤ Parse.notPrecedence) (missing : Missing) :
    Follows n (required rule minimum missing) (Parse.required expr minimum missing) := by
  intro w s spare
  refine (Follows.here w s spare).bind spare fun location s₁ looked spare₁ => ?_
  refine (follows minimum low w s₁ spare₁).bind spare₁ fun found s₂ _ spare₂ => ?_
  cases found with
  | some node => exact .pure spare₂ node
  | none =>
    obtain ⟨rfl, _⟩ := Reply.ok.inj looked
    exact .refuse spare₂ (w.knows_here s)

theorem FollowsRule.moreItems (follows : FollowsRule n rule expr) (sound : SoundRule m expr)
    {count : Nat} (spare : Spare n w s) (enough : (w.unread s).length < count) :
    Agrees w s (moreItems rule count) (Parse.separated expr) := by
  induction count generalizing s with
  | zero => exact absurd enough (Nat.not_lt_zero _)
  | succ count ih =>
    rw [Parse.separated_eq sound]
    refine (Follows.nextIs .comma w s spare).bind spare fun comma s₁ looked spare₁ => ?_
    obtain ⟨rfl, same⟩ := Parse.nextIs_ok looked
    cases comma : Grammar.startsWith .comma (w.unread s) with
    | false => exact .pure spare₁ []
    | true =>
      refine (Follows.consume (by decide) w s₁ spare₁).bind spare₁ fun _ s₂ read spare₂ => ?_
      refine (follows 0 (Nat.zero_le _) w s₂ spare₂).bind spare₂ fun found s₃ item_run spare₃ => ?_
      cases found with
      | none => exact .pure spare₃ []
      | some item =>
        have shorter := Parse.consume_shortens read
        have onward := sound.length_le item_run
        have left : (w.unread s₃).length < count := by
          rw [← same] at shorter
          omega
        exact (ih spare₃ left).bind spare₃ fun others s₄ _ spare₄ => .pure spare₄ (item :: others)

theorem FollowsRule.items (follows : FollowsRule n rule expr) (sound : SoundRule m expr) :
    Follows n (items rule) (Parse.items expr) := by
  refine .bind (follows.required (Nat.zero_le _) _) fun first => ?_
  exact .bind (.repeats fun _ _ _ => follows.moreItems sound) fun more => .pure (first :: more)

theorem FollowsRule.itemsUntil (follows : FollowsRule n rule expr) (sound : SoundRule m expr)
    (close : TokenKind) : Follows n (itemsUntil rule close) (Parse.itemsUntil expr close) := by
  refine .bind (.nextIs close) fun closed => ?_
  cases closed with
  | true => exact .pure []
  | false => exact follows.items sound

theorem FollowsRule.callHead (follows : FollowsRule n rule expr) (sound : SoundRule m expr) :
    Follows n (callHead rule) (Parse.callHead expr) := by
  refine .bind (.consume (by decide)) fun id => .bind (.consume (by decide)) fun _ => ?_
  refine .bind (follows.itemsUntil sound _) fun arguments => ?_
  exact .bind (.consume (by decide)) fun _ => .pure (id, arguments)

theorem FollowsRule.access (follows : FollowsRule n rule expr) :
    Follows n (access rule) (Parse.access expr) := by
  refine .bind (.consume (by decide)) fun id => .bind (.nextIs _) fun opened => ?_
  cases opened with
  | true =>
    refine .bind (.consume (by decide)) fun _ => .bind (follows.required (Nat.zero_le _) _) ?_
    exact fun index => .bind (.consume (by decide)) fun _ => .pure (Node.arrayAccess id index)
  | false =>
    refine .bind (.nextIs _) fun dotted => ?_
    cases dotted with
    | true =>
      refine .bind (.consume (by decide)) fun _ => ?_
      exact .bind (.consume (by decide)) fun inner => .pure (Node.scopeAccess id inner)
    | false => exact .pure (Node.identifier id)

theorem FollowsRule.named (follows : FollowsRule n rule expr) (sound : SoundRule m expr) :
    Follows n (named rule) (Parse.named expr) := by
  refine .bind (.kindAt 1) fun second => ?_
  by_cases applied : second = some .leftParen
  · simp only [applied, ↓reduceIte]
    exact .bind (follows.callHead sound) fun head => .pure (Node.call head.1 head.2 none)
  · simp only [applied, ↓reduceIte]
    exact follows.access

theorem FollowsRule.parenthesized (follows : FollowsRule n rule expr) :
    Follows n (parenthesized rule) (Parse.parenthesized expr) := by
  refine .bind (.consume (by decide)) fun _ => ?_
  refine .bind (follows.required (Nat.zero_le _) _) fun inner => ?_
  exact .bind (.consume (by decide)) fun _ => .pure inner

theorem FollowsRule.bracketed (follows : FollowsRule n rule expr) (sound : SoundRule m expr) :
    Follows n (bracketed rule) (Parse.bracketed expr) := by
  refine .bind (.consume (by decide)) fun _ => ?_
  refine .bind (follows.itemsUntil sound _) fun elements => ?_
  exact .bind (.consume (by decide)) fun _ => .pure (Node.expressionList elements)

theorem precedence_run {kind : TokenKind} {p : Nat} (ranked : kind.precedence? = some p) :
    precedence kind w s = ⟨.ok p, [], s⟩ := by
  rw [precedence, ranked]
  rfl

theorem ensure_run {holds : Bool} (sure : holds = true) : ensure holds w s = ⟨.ok (), [], s⟩ := by
  rw [ensure, if_pos sure]
  rfl

theorem FollowsRule.negation (follows : FollowsRule n rule expr) {minimum : Nat}
    (low : minimum ≤ Parse.notPrecedence) :
    Follows n (negation rule minimum) (Parse.negation expr) := by
  intro w s spare
  refine (Follows.consume (by decide) w s spare).bind spare fun op s₁ read spare₁ => ?_
  obtain ⟨_, bang⟩ := Parse.consume_ok_iff.mp read
  have ranked : op.kind.precedence? = some Parse.notPrecedence := by
    rw [List.mem_singleton.mp bang]
    rfl
  refine Agrees.of_eq ?_ ((look_bind _ (precedence_run ranked)).trans
    (look_bind _ (ensure_run (decide_eq_true low)))) rfl
  exact (follows.required (Nat.le_refl _) _).bind (fun operand => .pure (Node.notOp operand))
    w s₁ spare₁

/-- Only operators are asked for their precedence. -/
theorem binaryPrecedence_run (kind : TokenKind) :
    binaryPrecedence kind w s = ⟨.ok kind.binaryPrecedence?, [], s⟩ := by
  cases kind <;> rfl

theorem FollowsRule.operators (follows : FollowsRule n rule expr) (sound : SoundRule m expr)
    (minimum : Nat) {count : Nat} (spare : Spare n w s) (enough : (w.unread s).length < count)
    (left : Node) :
    Agrees w s (operators rule minimum count left) (Parse.climb expr minimum left) := by
  induction count generalizing s left with
  | zero => exact absurd enough (Nat.not_lt_zero _)
  | succ count ih =>
    rw [Parse.climb_eq sound]
    refine (Follows.kindAt 0 w s spare).bind spare fun next s₁ looked spare₁ => ?_
    obtain ⟨_, same⟩ := Parse.kindAt_ok looked
    cases next with
    | none => exact .pure spare₁ left
    | some kind =>
      refine Agrees.of_eq ?_ (look_bind _ (binaryPrecedence_run kind)) rfl
      cases ranked : kind.binaryPrecedence? with
      | none =>
        simp only [ranked]
        exact .pure spare₁ left
      | some precedence =>
        simp only [ranked]
        by_cases loose : precedence ≤ minimum
        · simp only [loose, ↓reduceIte]
          exact .pure spare₁ left
        · simp only [loose, ↓reduceIte]
          have tight : precedence ≤ Parse.notPrecedence :=
            Nat.le_of_lt (TokenKind.binary_bounds ranked).2
          refine (Follows.consume (by simp) w s₁ spare₁).bind spare₁ fun op s₂ read spare₂ => ?_
          refine (follows.required tight _ w s₂ spare₂).bind spare₂ fun right s₃ run spare₃ => ?_
          have shorter := Parse.consume_shortens read
          have onward := (sound.required run).length_le
          refine ih spare₃ ?_ _
          rw [← same] at shorter
          omega

theorem FollowsRule.chain (follows : FollowsRule n rule expr) (sound : SoundRule m expr)
    (minimum : Nat) {first : Machine Node} {first' : Parse Node}
    (operand : Follows n first first') :
    Follows n (chain rule minimum first) (Parse.chain expr minimum first') := by
  refine .bind operand fun left => ?_
  refine .bind (.repeats fun _ _ _ spare enough => ?_) fun node => .pure (some node)
  exact follows.operators sound minimum spare enough left

theorem FollowsRule.body (follows : FollowsRule n rule expr) (sound : SoundRule m expr) :
    FollowsRule n (expressionBody rule) (Parse.expressionBody expr) := by
  intro minimum low
  refine .bind (.kindAt 0) fun next => ?_
  cases next with
  | none => exact .pure none
  | some kind =>
    cases kind with
    | bang => exact .bind (follows.negation low) fun node => .pure (some node)
    | identifier => exact follows.chain sound minimum (follows.named sound)
    | leftParen => exact follows.chain sound minimum follows.parenthesized
    | leftBracket => exact follows.chain sound minimum (follows.bracketed sound)
    | integer | string | trueWord | falseWord =>
      exact follows.chain sound minimum
        (.bind (.consume (by decide)) fun value => .pure (Node.literal value))
    | _ => exact .pure none

end

/-- The recursion is deeper than there are levels to open. -/
theorem expression_follows {n deep : Nat} (enough : n < deep) :
    FollowsRule n (expression deep) (Parse.expression n) := by
  induction n generalizing deep with
  | zero =>
    obtain ⟨deep, rfl⟩ := Nat.exists_eq_succ_of_ne_zero (Nat.ne_of_gt enough)
    exact fun _ _ => .tooDeep
  | succ n ih =>
    obtain ⟨deep, rfl⟩ := Nat.exists_eq_succ_of_ne_zero (Nat.ne_of_gt (Nat.zero_lt_of_lt enough))
    have inner := ih (Nat.lt_of_succ_lt_succ enough)
    exact fun minimum low => .nested (inner.body (expression_sound n) minimum low)

section
variable {n m : Nat} {rule : Rule} {expr : Parse.ExpressionRule} {inner : Machine (List Node)}
  {block : Parse (List Node)} {w : Window} {s : Stand}

theorem FollowsRule.guarded (follows : FollowsRule n rule expr) (blocks : Follows n inner block) :
    Follows n (guarded rule inner) (Parse.guarded expr block) := by
  refine .bind (.consume (by decide)) fun _ => .bind (.consume (by decide)) fun _ => ?_
  refine .bind (follows.required (Nat.zero_le _) _) fun test => ?_
  exact .bind (.consume (by decide)) fun _ => .bind blocks fun body => .pure (test, body)

theorem FollowsRule.alternative (follows : FollowsRule n rule expr)
    (blocks : Follows n inner block) (sound : SoundRule m expr) (sound' : SoundBlock m block)
    {count : Nat} (spare : Spare n w s) (enough : (w.unread s).length < count) :
    Agrees w s (alternative rule inner count) (Parse.otherwise expr block) := by
  induction count generalizing s with
  | zero => exact absurd enough (Nat.not_lt_zero _)
  | succ count ih =>
    rw [Parse.otherwise_eq sound sound']
    refine (Follows.nextIs .elseWord w s spare).bind spare fun found s₁ looked spare₁ => ?_
    obtain ⟨rfl, same⟩ := Parse.nextIs_ok looked
    cases Grammar.startsWith .elseWord (w.unread s) with
    | false => exact .pure spare₁ Alternative.absent
    | true =>
      refine (Follows.consume (by decide) w s₁ spare₁).bind spare₁ fun _ s₂ read spare₂ => ?_
      refine (Follows.nextIs .ifWord w s₂ spare₂).bind spare₂ fun found s₃ looked spare₃ => ?_
      obtain ⟨rfl, same'⟩ := Parse.nextIs_ok looked
      cases Grammar.startsWith .ifWord (w.unread s₂) with
      | false =>
        exact (blocks w s₃ spare₃).bind spare₃ fun body _ _ spare₄ =>
          .pure spare₄ (Alternative.elseBlock body)
      | true =>
        refine (follows.guarded blocks w s₃ spare₃).bind spare₃ fun guard s₄ run spare₄ => ?_
        have shorter := Parse.consume_shortens read
        have onward := (sound'.guarded sound run).length_le
        have left : (w.unread s₄).length < count := by
          rw [← same] at shorter
          rw [← same'] at onward
          omega
        exact (ih spare₄ left).bind spare₄ fun others _ _ spare₅ =>
          .pure spare₅ (Alternative.elseIf guard.1 guard.2 others)

theorem FollowsRule.condition (follows : FollowsRule n rule expr)
    (blocks : Follows n inner block) (sound : SoundRule m expr) (sound' : SoundBlock m block) :
    Follows n (condition rule inner) (Parse.condition expr block) := by
  refine .bind (follows.guarded blocks) fun guard => ?_
  refine .bind (.repeats fun _ _ _ => follows.alternative blocks sound sound') fun others => ?_
  exact .pure (Node.condition guard.1 guard.2 others)

theorem FollowsRule.assignment (follows : FollowsRule n rule expr) :
    Follows n (assignment rule) (Parse.assignment expr) := by
  refine .bind follows.access fun target => .bind (.consume (by decide)) fun op => ?_
  exact .bind (follows.required (Nat.zero_le _) _) fun value =>
    .pure (Node.assignment op target value)

theorem FollowsRule.callStatement (follows : FollowsRule n rule expr)
    (blocks : Follows n inner block) (sound : SoundRule m expr) :
    Follows n (callStatement rule inner) (Parse.callStatement expr block) := by
  refine .bind (follows.callHead sound) fun head => .bind (.nextIs .leftBrace) fun opened => ?_
  cases opened with
  | true => exact .bind blocks fun body => .pure (Node.call head.1 head.2 (some body))
  | false => exact .pure (Node.call head.1 head.2 none)

theorem FollowsRule.statement (follows : FollowsRule n rule expr)
    (blocks : Follows n inner block) (sound : SoundRule m expr) (sound' : SoundBlock m block) :
    Follows n (statement rule inner) (Parse.statement expr block) := by
  refine .bind (.kindAt 0) fun next => ?_
  cases next with
  | none => exact .pure none
  | some kind =>
    cases kind with
    | ifWord =>
      exact .bind (follows.condition blocks sound sound') fun node => .pure (some node)
    | identifier =>
      refine .bind (.expectAt 1 (by decide)) fun second => ?_
      by_cases applied : second.kind = .leftParen
      · simp only [applied, ↓reduceIte]
        exact .bind (follows.callStatement blocks sound) fun node => .pure (some node)
      · simp only [applied, ↓reduceIte]
        exact .bind follows.assignment fun node => .pure (some node)
    | _ => exact .pure none

theorem FollowsRule.statements (follows : FollowsRule n rule expr)
    (blocks : Follows n inner block) (sound : SoundRule m expr) (sound' : SoundBlock m block)
    {count : Nat} (spare : Spare n w s) (enough : (w.unread s).length < count) :
    Agrees w s (statements rule inner count) (Parse.listing expr block) := by
  induction count generalizing s with
  | zero => exact absurd enough (Nat.not_lt_zero _)
  | succ count ih =>
    rw [Parse.listing_eq sound sound']
    have tried := follows.statement blocks sound sound' w s spare
    refine tried.bind spare fun found s₁ run spare₁ => ?_
    cases found with
    | none => exact .pure spare₁ []
    | some first =>
      have shorter := Parse.statement_shortens sound sound' run
      exact (ih spare₁ (by omega)).bind spare₁ fun others _ _ spare₂ =>
        .pure spare₂ (first :: others)

theorem FollowsRule.listing (follows : FollowsRule n rule expr)
    (blocks : Follows n inner block) (sound : SoundRule m expr) (sound' : SoundBlock m block) :
    Follows n (listing rule inner) (Parse.listing expr block) :=
  .repeats fun _ _ _ => follows.statements blocks sound sound'

theorem FollowsRule.braced (follows : FollowsRule n rule expr)
    (blocks : Follows n inner block) (sound : SoundRule m expr) (sound' : SoundBlock m block) :
    Follows n (braced rule inner) (Parse.braced expr block) := by
  refine .bind (.consume (by decide)) fun _ => ?_
  refine .bind (follows.listing blocks sound sound') fun body => ?_
  exact .bind (.consume (by decide)) fun _ => .pure body

end

theorem block_follows {n deep : Nat} (enough : n < deep) :
    Follows n (block deep) (Parse.block n) := by
  induction n generalizing deep with
  | zero =>
    obtain ⟨deep, rfl⟩ := Nat.exists_eq_succ_of_ne_zero (Nat.ne_of_gt enough)
    exact .tooDeep
  | succ n ih =>
    obtain ⟨deep, rfl⟩ := Nat.exists_eq_succ_of_ne_zero (Nat.ne_of_gt (Nat.zero_lt_of_lt enough))
    have less := Nat.lt_of_succ_lt_succ enough
    exact .nested ((expression_follows less).braced (ih less) (expression_sound n) (block_sound n))

end ShiFormat.Machine
