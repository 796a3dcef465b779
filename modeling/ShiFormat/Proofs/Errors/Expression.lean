import ShiFormat.Proofs.Errors.Rounds

/-!
The rules for expressions are prompt: each is stopped only by a token with which no expression goes
on.
-/
namespace ShiFormat
open Grammar Parse

/-- The tokens are such a phrase, of whatever depth and tree. -/
def Phrase {α : Type} (derives : Nat → List Token → α → Prop) (ts : List Token) : Prop :=
  ∃ depth tree, derives depth ts tree

section
variable {m p : Nat} {id opening closing op : Token} {ts us : List Token}

theorem Phrase.operand (primary : Phrase Primary ts) : Phrase (Expression m) ts := by
  obtain ⟨d, node, derived⟩ := primary
  exact ⟨d + 1, node, .chain (.primary derived)⟩

theorem Phrase.name : Phrase (Expression m) [.sample .identifier] :=
  Phrase.operand ⟨0, _, .identifier rfl⟩

theorem Phrase.item (expression : Phrase (Expression 0) ts) : Phrase Items ts := by
  obtain ⟨d, node, derived⟩ := expression
  exact ⟨d, [node], .last derived⟩

theorem Phrase.items {comma : Token} (expression : Phrase (Expression 0) ts)
    (kind : comma.kind = .comma) (others : Phrase Items us) :
    Phrase Items (ts ++ comma :: us) := by
  obtain ⟨d, node, first⟩ := expression
  obtain ⟨e, nodes, derived⟩ := others
  exact ⟨max d e, node :: nodes, .cons first kind derived⟩

theorem Phrase.applied (kind : id.kind = .identifier) (opens : opening.kind = .leftParen)
    (items : Phrase Items ts) (closes : closing.kind = .rightParen) :
    Phrase Primary (id :: opening :: (ts ++ [closing])) := by
  obtain ⟨d, nodes, inside⟩ := items
  exact ⟨d, _, .call (.applied kind opens inside closes)⟩

theorem Phrase.element (kind : id.kind = .identifier) (opens : opening.kind = .leftBracket)
    (index : Phrase (Expression 0) ts) (closes : closing.kind = .rightBracket) :
    Phrase Primary (id :: opening :: (ts ++ [closing])) := by
  obtain ⟨d, node, inside⟩ := index
  exact ⟨d, _, .arrayAccess kind opens inside closes⟩

theorem Phrase.grouped (opens : opening.kind = .leftParen) (inner : Phrase (Expression 0) ts)
    (closes : closing.kind = .rightParen) : Phrase Primary (opening :: (ts ++ [closing])) := by
  obtain ⟨d, node, inside⟩ := inner
  exact ⟨d, _, .parenthesized opens inside closes⟩

theorem Phrase.listed (opens : opening.kind = .leftBracket) (items : Phrase Items ts)
    (closes : closing.kind = .rightBracket) : Phrase Primary (opening :: (ts ++ [closing])) := by
  obtain ⟨d, nodes, inside⟩ := items
  exact ⟨d, _, .bracketed opens inside closes⟩

end

namespace Parse
variable {expr : ExpressionRule} {finish : Location} {id : Token}

/-- What follows the name that an operand starts with. -/
def afterName (expr : ExpressionRule) (id : Token) : Parse Node := do
  if ← nextIs .leftParen then
    let _ ← consume [.leftParen]
    let arguments ← itemsUntil expr .rightParen
    let _ ← consume [.rightParen]
    pure (.call id arguments none)
  else if ← nextIs .leftBracket then
    let _ ← consume [.leftBracket]
    let index ← required expr 0 .arrayIndex
    let _ ← consume [.rightBracket]
    pure (.arrayAccess id index)
  else if ← nextIs .dot then
    let _ ← consume [.dot]
    let inner ← consume [.identifier]
    pure (.scopeAccess id inner)
  else pure (.identifier id)

/-- An operand that starts with a name is told apart by the token after the name. -/
theorem named_after (kind : id.kind = .identifier) (ts : List Token) :
    named expr finish (id :: ts) = afterName expr id finish ts := by
  have name : consume [.identifier] finish (id :: ts) = .ok id ts :=
    consume_run (List.mem_singleton.mpr kind)
  have second : ((id :: ts)[1]?.map Token.kind = some .leftParen) ↔
      startsWith .leftParen ts = true := by
    cases ts <;> simp [startsWith]
  unfold named afterName
  rw [bind_run, kindAt_run, bind_run, nextIs_run]
  simp only [second]
  split
  · simp only [callHead, bind_assoc]
    rw [bind_run, name]
    rfl
  · unfold access
    rw [bind_run, name]

end Parse

/-- A rule for expressions that is prompt, and reads nothing but expressions. -/
structure PromptRule (n : Nat) (expr : ExpressionRule) : Prop extends SoundRule n expr where
  prompt : ∀ m finish ts, Prompt (Phrase (Expression m)) (expr m) finish ts

namespace PromptRule
variable {n m : Nat} {expr : ExpressionRule} {finish : Location} {ts : List Token}

theorem required (rule : PromptRule n expr) (missing : Missing) :
    Prompt (Phrase (Expression m)) (required expr m missing) finish ts := by
  have sees : ∀ us : List Token, us.head? = ts.head? →
      here finish us = .ok ((ts.head?.map Token.location).getD finish) us := by
    intro us head
    rw [here_run, head]
  apply Prompt.look sees
  apply (rule.prompt m finish ts).bind fun _ => .whole
  intro result used rest split run
  cases result with
  | some node => exact .done node
  | none =>
    -- Nothing has been read, and a name would have done.
    obtain rfl := rule.absent run
    obtain rfl := List.append_left_eq_self.mp split.symm
    apply Prompt.refuse [] ⟨.semantic missing.message _, 0⟩
    · intro us _
      exact ⟨us, rfl⟩
    · rfl
    · intro t _
      exact List.not_mem_nil
    · exact ⟨_, .name⟩
    · intro t asks
      cases asks

theorem required_phrase (rule : PromptRule n expr) {missing : Missing} {node : Node}
    {used rest : List Token} (split : ts = used ++ rest)
    (run : Parse.required expr m missing finish ts = .ok node rest) :
    Phrase (Expression m) used := by
  obtain ⟨d, derived, _⟩ := (rule.toSoundRule.required run).phrase split
  exact ⟨d, node, derived⟩

/-- The induction is on the number of tokens left, of which the comma is one. -/
theorem separated (rule : PromptRule n expr) {used : List Token}
    (first : Phrase (Expression 0) used) :
    Prompt (fun us => Phrase Items (used ++ us)) (separated expr) finish ts := by
  induction size : ts.length using Nat.strongRecOn generalizing ts used with
  | ind k ih =>
    rw [separated_eq rule.toSoundRule]
    apply Prompt.nextIs
    · rintro comma rest rfl kind
      apply Prompt.take (List.mem_singleton.mpr kind)
      apply (rule.prompt 0 finish rest).bind
      · intro us item
        exact .whole (first.items kind item.item)
      · intro result more left split run
        cases result with
        -- The comma was the one that may follow the last item.
        | none => exact .done []
        | some node =>
          obtain ⟨d, derived, _⟩ := (rule.found run).phrase split
          have shorter : left.length < k := size ▸ length_lt_of_split split
          have later := (ih left.length shorter ⟨d, node, derived⟩ rfl).last (node :: ·)
          exact later.mono fun us items => .whole (first.items kind items)
    · intro _
      exact .done []

theorem items (rule : PromptRule n expr) : Prompt (Phrase Items) (items expr) finish ts := by
  apply (rule.required .expression).bind
  · intro us item
    exact .whole item.item
  · intro node used rest split run
    exact (rule.separated (rule.required_phrase split run)).last (node :: ·)

theorem itemsUntil (rule : PromptRule n expr) (close : TokenKind) :
    Prompt (Phrase Items) (itemsUntil expr close) finish ts := by
  apply Prompt.nextIs
  · intro _ _ _ _
    exact .done []
  · intro _
    exact rule.items

theorem items_phrase (rule : PromptRule n expr) {close : TokenKind} {nodes : List Node}
    {used rest : List Token} (split : ts = used ++ rest)
    (run : Parse.itemsUntil expr close finish ts = .ok nodes rest) : Phrase Items used := by
  obtain ⟨d, derived⟩ := (rule.toSoundRule.itemsUntil run).phrase split
  exact ⟨d, nodes, derived⟩

/-- What has been read is a chain, which the operators ahead may go on with. -/
theorem climb (rule : PromptRule n expr) {seen : List Token} {d : Nat} {ceiling : Option Nat}
    {left : Node} (before : Chain m ceiling d seen left) (bounded : Bounded ceiling ts) :
    Prompt (fun us => Phrase (Expression m) (seen ++ us)) (climb expr m left) finish ts := by
  induction size : ts.length using Nat.strongRecOn generalizing ts seen d ceiling left with
  | ind k ih =>
    rw [climb_eq rule.toSoundRule]
    have sees : ∀ us : List Token, us.head? = ts.head? →
        kindAt 0 finish us = .ok (ts[0]?.map Token.kind) us := by
      intro us head
      rw [kindAt_run, ← List.head?_eq_getElem?, head, List.head?_eq_getElem?]
    apply Prompt.look sees
    cases ts with
    | nil => exact .done left
    | cons op rest =>
      simp only [List.getElem?_cons_zero, Option.map_some]
      cases precedence : op.kind.binaryPrecedence? with
      | none => exact .done left
      | some p =>
        by_cases loose : p ≤ m
        · simp only [loose, ↓reduceIte]
          exact .done left
        · simp only [loose, ↓reduceIte]
          -- The ceiling holds of the token ahead, so the operator goes on with what has been read.
          have below : ∀ c ∈ ceiling, p ≤ c := fun c member =>
            headKind_cons.mp (bounded c member) p precedence
          have go {e : Nat} {us : List Token} {right : Node} (operand : Expression p e us right) :=
            Chain.operator before precedence (Nat.not_le.mp loose) below operand
          apply Prompt.take (List.mem_singleton.mpr rfl)
          apply (rule.required .rightOperand).bind
          · rintro us ⟨e, right, operand⟩
            exact .whole ⟨_, _, .chain (go operand)⟩
          · intro right used left_ split run
            obtain ⟨e, operand, follows⟩ := (rule.toSoundRule.required run).phrase split
            have shorter : left_.length < k := size ▸ length_lt_of_split split
            have later := ih left_.length shorter (go operand) follows rfl
            exact later.mono fun us whole => .whole (by simpa using whole)

theorem chain (rule : PromptRule n expr) {first : Parse Node}
    (operand : Prompt (Phrase Primary) first finish ts)
    (sound : ∀ {node rest}, first finish ts = .ok node rest → Uses n (Primary · · node) ts rest) :
    Prompt (Phrase (Expression m)) (chain expr m first) finish ts := by
  apply operand.bind
  · intro us primary
    exact .whole primary.operand
  · intro node used rest split run
    obtain ⟨d, primary⟩ := (sound run).phrase split
    exact (rule.climb (.primary primary) (by simp [Bounded])).last some

theorem named (rule : PromptRule n expr) {id : Token} (kind : id.kind = .identifier) :
    Prompt (Phrase Primary) (named expr) finish (id :: ts) := by
  apply Prompt.known [id] (named_after kind)
  apply Prompt.nextIs
  · rintro opening rest rfl opens
    apply Prompt.take (List.mem_singleton.mpr opens)
    apply (rule.itemsUntil .rightParen).closed rule.items_phrase
    · intro us closing items closes
      exact .whole (.applied kind opens items closes)
    · intro arguments us closing rest items closes
      exact .done _
  · intro _
    apply Prompt.nextIs
    · rintro opening rest rfl opens
      apply Prompt.take (List.mem_singleton.mpr opens)
      apply (rule.required .arrayIndex).closed rule.required_phrase
      · intro us closing index closes
        exact .whole (.element kind opens index closes)
      · intro node us closing rest index closes
        exact .done _
    · intro _
      apply Prompt.nextIs
      · rintro dot rest rfl dotted
        apply Prompt.take (List.mem_singleton.mpr dotted)
        apply Prompt.consume
        · intro inner member
          exact .whole ⟨0, _, .scopeAccess kind dotted member⟩
        · intro inner rest _ member
          exact .done _
      · intro _
        exact .done _

theorem parenthesized (rule : PromptRule n expr) {opening : Token}
    (opens : opening.kind = .leftParen) :
    Prompt (Phrase Primary) (parenthesized expr) finish (opening :: ts) := by
  apply Prompt.take (List.mem_singleton.mpr opens)
  apply (rule.required .parenthesized).closed rule.required_phrase
  · intro us closing inner closes
    exact .whole (.grouped opens inner closes)
  · intro node us closing rest inner closes
    exact .done _

theorem bracketed (rule : PromptRule n expr) {opening : Token}
    (opens : opening.kind = .leftBracket) :
    Prompt (Phrase Primary) (bracketed expr) finish (opening :: ts) := by
  apply Prompt.take (List.mem_singleton.mpr opens)
  apply (rule.itemsUntil .rightBracket).closed rule.items_phrase
  · intro us closing items closes
    exact .whole (.listed opens items closes)
  · intro nodes us closing rest items closes
    exact .done _

theorem negation (rule : PromptRule n expr) {bang : Token} (kind : bang.kind = .bang) :
    Prompt (Phrase (Expression m)) (negation expr) finish (bang :: ts) := by
  apply Prompt.take (List.mem_singleton.mpr kind)
  apply ((rule.required .notOperand).last Node.notOp).mono
  rintro us ⟨d, operand, inside⟩
  exact .whole ⟨d + 1, _, .negation kind inside⟩

theorem body (rule : PromptRule n expr) :
    Prompt (Phrase (Expression m)) (expressionBody expr m) finish ts := by
  cases ts with
  | nil =>
    refine Prompt.of_head (fun us head => ?_) (.done none)
    obtain rfl := List.head?_eq_none_iff.mp head
    rfl
  | cons t rest =>
    by_cases starts : t.kind = .bang ∨ StartsOperand t.kind
    · rcases starts with negated | named | grouped | listed | literal
      · apply Prompt.of_first fun us => expressionBody_negation negated
        exact (rule.negation negated).last some
      · apply Prompt.of_first fun us => expressionBody_named named
        exact rule.chain (rule.named named) rule.toSoundRule.named
      · apply Prompt.of_first fun us => expressionBody_parenthesized grouped
        exact rule.chain (rule.parenthesized grouped) rule.toSoundRule.parenthesized
      · apply Prompt.of_first fun us => expressionBody_bracketed listed
        exact rule.chain (rule.bracketed listed) rule.toSoundRule.bracketed
      · apply Prompt.of_first fun us => expressionBody_literal literal
        apply rule.chain _ sound_literal
        exact .take literal (.done _)
    · have nothing : HeadKind (fun kind => kind ≠ .bang ∧ ¬ StartsOperand kind) (t :: rest) :=
        headKind_cons.mpr (not_or.mp starts)
      refine Prompt.of_head (fun us head => ?_) (.done none)
      apply expressionBody_none
      rwa [HeadKind, head]

end PromptRule

theorem expression_prompt (n : Nat) : PromptRule n (expression n) := by
  induction n with
  | zero => exact ⟨expression_sound 0, fun _ _ _ => .tooDeep⟩
  | succ n ih => exact ⟨expression_sound (n + 1), fun _ _ _ => ih.body.deepen⟩

end ShiFormat
