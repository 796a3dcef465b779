import ShiFormat.Proofs.Errors.Expression

/-!
The rules for statements, blocks and files are prompt.
-/
namespace ShiFormat
open Grammar Parse

/-- `if ( test ) block`, of whatever depth and tree. -/
def Conditional : List Token → Prop :=
  Phrase fun d ts (found : Node × List Node) => Guarded d ts found.1 found.2

section
variable {word id opening closing op : Token} {ts us : List Token}

theorem Phrase.conditional (kind : word.kind = .ifWord) (opens : opening.kind = .leftParen)
    (test : Phrase (Expression 0) ts) (closes : closing.kind = .rightParen)
    (block : Phrase Block us) : Conditional (word :: opening :: (ts ++ closing :: us)) := by
  obtain ⟨d, node, inside⟩ := test
  obtain ⟨e, body, braces⟩ := block
  exact ⟨_, (node, body), .guarded kind opens inside closes braces⟩

theorem Conditional.condition (guard : Conditional ts) (others : Phrase Otherwise us) :
    Phrase Statement (ts ++ us) := by
  obtain ⟨d, _, guarded⟩ := guard
  obtain ⟨e, alternative, otherwise⟩ := others
  exact ⟨_, _, .condition guarded otherwise⟩

theorem Phrase.elseIf (kind : word.kind = .elseWord) (guard : Conditional ts)
    (others : Phrase Otherwise us) : Phrase Otherwise (word :: (ts ++ us)) := by
  obtain ⟨d, _, guarded⟩ := guard
  obtain ⟨e, alternative, otherwise⟩ := others
  exact ⟨_, _, .elseIf kind guarded otherwise⟩

theorem Phrase.elseBlock (kind : word.kind = .elseWord) (block : Phrase Block ts) :
    Phrase Otherwise (word :: ts) := by
  obtain ⟨d, body, braces⟩ := block
  exact ⟨d, _, .elseBlock kind braces⟩

theorem Phrase.noElse : Phrase Otherwise [] := ⟨0, _, .absent⟩

theorem Phrase.assignment (kind : id.kind = .identifier)
    (assigns : op.kind ∈ TokenKind.assignmentOperators) (value : Phrase (Expression 0) ts) :
    Phrase Statement (id :: op :: ts) := by
  obtain ⟨d, node, right⟩ := value
  exact ⟨d, _, .assignment kind assigns right⟩

theorem Phrase.call (kind : id.kind = .identifier) (opens : opening.kind = .leftParen)
    (items : Phrase Items ts) (closes : closing.kind = .rightParen) :
    Phrase Statement (id :: opening :: (ts ++ [closing])) := by
  obtain ⟨d, nodes, inside⟩ := items
  exact ⟨d, _, .call (.applied kind opens inside closes)⟩

theorem Phrase.callBlock (kind : id.kind = .identifier) (opens : opening.kind = .leftParen)
    (items : Phrase Items ts) (closes : closing.kind = .rightParen) (block : Phrase Block us) :
    Phrase Statement (id :: opening :: (ts ++ closing :: us)) := by
  obtain ⟨d, nodes, inside⟩ := items
  obtain ⟨e, body, braces⟩ := block
  exact ⟨_, _, by simpa using Statement.callBlock (.applied kind opens inside closes) braces⟩

theorem Phrase.braced (opens : opening.kind = .leftBrace) (body : Phrase Statements ts)
    (closes : closing.kind = .rightBrace) : Phrase Block (opening :: (ts ++ [closing])) := by
  obtain ⟨d, nodes, inside⟩ := body
  exact ⟨d + 1, nodes, .braced opens inside closes⟩

theorem Phrase.statements (first : Phrase Statement ts) (others : Phrase Statements us) :
    Phrase Statements (ts ++ us) := by
  obtain ⟨d, node, derived⟩ := first
  obtain ⟨e, nodes, derived'⟩ := others
  exact ⟨max d e, node :: nodes, .cons derived derived'⟩

theorem Phrase.noItems : Phrase Items [] := ⟨0, [], .nil⟩

theorem Phrase.noStatements : Phrase Statements [] := ⟨0, [], .nil⟩

theorem Phrase.statement (first : Phrase Statement ts) : Phrase Statements ts := by
  simpa using first.statements .noStatements

theorem Phrase.emptyBlock : Phrase Block [.sample .leftBrace, .sample .rightBrace] :=
  .braced rfl .noStatements rfl

theorem Phrase.statements_append (body : Phrase Statements ts) (others : Phrase Statements us) :
    Phrase Statements (ts ++ us) := by
  obtain ⟨d, nodes, derived⟩ := body
  induction nodes generalizing d ts with
  | nil =>
    cases derived
    exact others
  | cons node nodes ih =>
    cases derived with
    | cons first more =>
      rw [List.append_assoc]
      exact .statements ⟨_, node, first⟩ (ih _ more)

theorem Conditional.begins (kind : word.kind = .ifWord) (opens : opening.kind = .leftParen) :
    Begins Conditional [word, opening] := by
  have closes : (Token.sample .rightParen).kind = .rightParen := rfl
  have whole := Phrase.conditional kind opens .name closes .emptyBlock
  exact ⟨_, whole⟩

end

namespace Parse
variable {expr : ExpressionRule} {block : Parse (List Node)} {finish : Location}
  {id opening op : Token} {ts : List Token}

/-- What follows the opening parenthesis of a call that is a statement. -/
def afterOpening (expr : ExpressionRule) (block : Parse (List Node)) (id : Token) : Parse Node := do
  let arguments ← itemsUntil expr .rightParen
  let _ ← consume [.rightParen]
  if ← nextIs .leftBrace then
    let body ← block
    pure (.call id arguments (some body))
  else pure (.call id arguments none)

theorem statement_opening (kind : id.kind = .identifier) (opens : opening.kind = .leftParen)
    (us : List Token) :
    statement expr block finish (id :: opening :: us) =
      (do let node ← afterOpening expr block id; pure (some node) : Parse (Option Node)) finish
        us := by
  have name : consume [.identifier] finish (id :: opening :: us) = .ok id (opening :: us) :=
    consume_run (List.mem_singleton.mpr kind)
  have paren : consume [.leftParen] finish (opening :: us) = .ok opening us :=
    consume_run (List.mem_singleton.mpr opens)
  rw [statement_call kind opens]
  simp only [callStatement, callHead, afterOpening, bind_assoc, pure_bind]
  rw [bind_run, name]
  dsimp only
  rw [bind_run, paren]

/-- What follows the operator of an assignment. -/
def afterAssignment (expr : ExpressionRule) (id op : Token) : Parse Node := do
  let value ← required expr 0 .rightHandSide
  pure (.assignment op (.identifier id) value)

theorem statement_operator (kind : id.kind = .identifier)
    (assigns : op.kind ∈ TokenKind.assignmentOperators) (us : List Token) :
    statement expr block finish (id :: op :: us) =
      (do let node ← afterAssignment expr id op; pure (some node) : Parse (Option Node)) finish
        us := by
  rw [statement_assignment kind assigns]
  simp only [assignment, afterAssignment, bind_assoc]
  rw [bind_run, access_target kind assigns]
  dsimp only
  rw [bind_run, consume_run assigns]

/-- A token of this kind starts a statement. -/
def StartsStatement (kind : TokenKind) : Prop := kind = .ifWord ∨ kind = .identifier

theorem statement_absent (head : HeadKind (¬ StartsStatement ·) ts) :
    statement expr block finish ts = .ok none ts := by
  cases ts with
  | nil => rfl
  | cons t rest =>
    have start := headKind_cons.mp head
    cases kind : t.kind <;> simp_all [statement, StartsStatement]

theorem present_ne_absent {α : Type} {step : Parse α} {rest : List Token} :
    (do let value ← step; pure (some value) : Parse (Option α)) finish ts ≠ .ok none rest := by
  intro run
  obtain ⟨_, _, _, last⟩ := bind_ok_iff.mp run
  cases (pure_ok last).1

theorem no_start_of_absent {rest : List Token}
    (run : statement expr block finish ts = .ok none rest) : HeadKind (¬ StartsStatement ·) ts := by
  cases ts with
  | nil => exact headKind_nil _
  | cons t ts =>
    rw [headKind_cons]
    rintro (kind | kind)
    · rw [statement_condition kind] at run
      exact present_ne_absent run
    · have branch := kindAt_bind run
      simp only [List.getElem?_cons_zero, Option.map_some, kind] at branch
      obtain ⟨next, mid, _, node_run⟩ := bind_ok_iff.mp branch
      split at node_run <;> exact present_ne_absent node_run

end Parse

/-- A rule for blocks that is prompt, and reads nothing but blocks. -/
structure PromptBlock (n : Nat) (block : Parse (List Node)) : Prop where
  sound : SoundBlock n block
  prompt : ∀ finish ts, Prompt (Phrase Block) block finish ts

namespace PromptBlock
variable {n : Nat} {expr : ExpressionRule} {block : Parse (List Node)} {finish : Location}
  {ts : List Token}

theorem guarded (blocks : PromptBlock n block) (rule : PromptRule n expr) :
    Prompt Conditional (guarded expr block) finish ts := by
  apply Prompt.consume
  · intro word kind
    exact (Conditional.begins kind (rfl : (Token.sample .leftParen).kind = .leftParen)).before
  · intro word rest _ kind
    apply Prompt.consume
    · intro opening opens
      exact Conditional.begins kind opens
    · intro opening rest _ opens
      apply (rule.required .condition).closed rule.required_phrase
      · intro us closing test closes
        have whole := Phrase.conditional kind opens test closes .emptyBlock
        exact ⟨_, by simpa using whole⟩
      · intro node us closing rest test closes
        apply ((blocks.prompt finish rest).last (node, ·)).mono
        intro vs block
        exact .whole (.conditional kind opens test closes block)

theorem guarded_phrase (blocks : PromptBlock n block) (rule : PromptRule n expr)
    {found : Node × List Node} {used rest : List Token} (split : ts = used ++ rest)
    (run : Parse.guarded expr block finish ts = .ok found rest) : Conditional used := by
  have uses := SoundBlock.guarded rule.toSoundRule blocks.sound run
  obtain ⟨d, derived⟩ := uses.phrase split
  exact ⟨d, found, derived⟩

/-- The induction is on the number of tokens left, of which `else` is one. -/
theorem otherwise (blocks : PromptBlock n block) (rule : PromptRule n expr) :
    Prompt (Phrase Otherwise) (otherwise expr block) finish ts := by
  induction size : ts.length using Nat.strongRecOn generalizing ts with
  | ind k ih =>
    rw [otherwise_eq rule.toSoundRule blocks.sound]
    apply Prompt.nextIs
    · rintro word rest rfl kind
      apply Prompt.take (List.mem_singleton.mpr kind)
      apply Prompt.nextIs
      · intro _ _ _ _
        apply (blocks.guarded rule).bind
        · intro us guard
          exact .whole (by simpa using Phrase.elseIf kind guard .noElse)
        · intro found used left split run
          have guard := blocks.guarded_phrase rule split run
          have shorter : left.length < k := size ▸ length_lt_of_split split
          have later := (ih left.length shorter rfl).last (Alternative.elseIf found.1 found.2 ·)
          exact later.mono fun us others => .whole (.elseIf kind guard others)
      · intro _
        apply ((blocks.prompt finish rest).last Alternative.elseBlock).mono
        intro us block
        exact .whole (.elseBlock kind block)
    · intro _
      exact .done Alternative.absent

theorem condition (blocks : PromptBlock n block) (rule : PromptRule n expr) :
    Prompt (Phrase Statement) (condition expr block) finish ts := by
  apply (blocks.guarded rule).bind
  · intro us guard
    exact .whole (by simpa using guard.condition .noElse)
  · intro found used rest split run
    have guard := blocks.guarded_phrase rule split run
    apply ((blocks.otherwise rule).last (Node.condition found.1 found.2 ·)).mono
    intro us others
    exact .whole (guard.condition others)

theorem opened (blocks : PromptBlock n block) (rule : PromptRule n expr) {id opening : Token}
    (kind : id.kind = .identifier) (opens : opening.kind = .leftParen) :
    Prompt (fun us => Phrase Statement (id :: opening :: us)) (afterOpening expr block id) finish
      ts := by
  apply (rule.itemsUntil .rightParen).closed rule.items_phrase
  · intro us closing items closes
    exact .whole (.call kind opens items closes)
  · intro arguments us closing rest items closes
    apply Prompt.nextIs
    · intro _ _ _ _
      apply ((blocks.prompt finish rest).last (Node.call id arguments <| some ·)).mono
      intro vs block
      exact .whole (.callBlock kind opens items closes block)
    · intro _
      exact .done _

theorem assigned (rule : PromptRule n expr) {id op : Token} (kind : id.kind = .identifier)
    (assigns : op.kind ∈ TokenKind.assignmentOperators) :
    Prompt (fun us => Phrase Statement (id :: op :: us)) (afterAssignment expr id op) finish
      ts := by
  apply ((rule.required .rightHandSide).last (Node.assignment op (.identifier id) ·)).mono
  intro us value
  exact .whole (.assignment kind assigns value)

/-- Any token that may follow the name at the start of a statement goes on with it. -/
theorem continued {id next : Token} (kind : id.kind = .identifier)
    (continues : next.kind ∈ continuations) : Begins (Phrase Statement) [id, next] := by
  by_cases opens : next.kind = .leftParen
  · have closes : (Token.sample .rightParen).kind = .rightParen := rfl
    exact ⟨_, .call kind opens .noItems closes⟩
  · have assigns : next.kind ∈ TokenKind.assignmentOperators := by
      simpa [continuations, TokenKind.assignmentOperators, opens] using continues
    exact ⟨_, .assignment kind assigns .name⟩

theorem begins_statement {t : Token} (starts : StartsStatement t.kind) :
    Begins (Phrase Statement) [t] := by
  rcases starts with kind | kind
  · have opens : (Token.sample .leftParen).kind = .leftParen := rfl
    apply (Conditional.begins kind opens).before.mono
    intro us guard
    exact .whole (by simpa using guard.condition .noElse)
  · have continues : (Token.sample .leftParen).kind ∈ continuations := List.mem_cons_self
    exact (continued kind continues).before

/-- The step looks at the token after the name before it reads the name, and that is the token it
refuses. -/
theorem statement_of_name (blocks : PromptBlock n block) (rule : PromptRule n expr) {id : Token}
    (kind : id.kind = .identifier) :
    Prompt (Phrase Statement) (statement expr block) finish (id :: ts) := by
  have asked : ∀ t : Token, t.kind ∈ continuations → Begins (Phrase Statement) [id, t] :=
    fun t asks => continued kind asks
  have begins : Begins (Phrase Statement) [id] := begins_statement (.inr kind)
  cases ts with
  | nil =>
    refine Prompt.refuse [id] ⟨.unexpectedEnd finish continuations, 0⟩ (fun us head => ?_)
      ⟨rfl, rfl⟩ (headKind_nil _) begins asked
    obtain rfl := List.head?_eq_none_iff.mp head
    exact ⟨[id], by simp [statement, kind, expectAt]⟩
  | cons next rest =>
    by_cases opens : next.kind = .leftParen
    · apply Prompt.known [id, next] (statement_opening kind opens)
      exact (blocks.opened rule kind opens).last some
    · by_cases assigns : next.kind ∈ TokenKind.assignmentOperators
      · apply Prompt.known [id, next] (statement_operator kind assigns)
        exact (assigned rule kind assigns).last some
      · have refused : next.kind ∉ continuations := by
          simpa [continuations, TokenKind.assignmentOperators, opens] using assigns
        refine Prompt.refuse [id] ⟨.unexpectedToken next continuations, 0⟩ (fun us head => ?_)
          rfl (headKind_cons.mpr refused) begins asked
        obtain ⟨more, rfl⟩ := List.head?_eq_some_iff.mp head
        exact ⟨id :: next :: more, by simp [statement, kind, expectAt, refused]⟩

theorem statement (blocks : PromptBlock n block) (rule : PromptRule n expr) :
    Prompt (Phrase Statement) (statement expr block) finish ts := by
  by_cases absent : HeadKind (¬ StartsStatement ·) ts
  · refine Prompt.of_head (fun us head => ?_) (.done none)
    apply statement_absent
    rwa [HeadKind, head]
  · cases ts with
    | nil => exact absurd (headKind_nil _) absent
    | cons t rest =>
      rw [headKind_cons, Classical.not_not] at absent
      rcases absent with kind | kind
      · apply Prompt.of_first fun us => statement_condition kind
        exact (blocks.condition rule).last some
      · exact blocks.statement_of_name rule kind

/-- The induction is on the number of tokens left, of which a statement has at least one. -/
theorem listing (blocks : PromptBlock n block) (rule : PromptRule n expr) :
    Prompt (Phrase Statements) (listing expr block) finish ts := by
  induction size : ts.length using Nat.strongRecOn generalizing ts with
  | ind k ih =>
    rw [listing_eq rule.toSoundRule blocks.sound]
    apply (blocks.statement rule).bind
    · intro us first
      exact .whole first.statement
    · intro result used rest split run
      cases result with
      | none => exact .done []
      | some node =>
        rcases SoundBlock.statement rule.toSoundRule blocks.sound run with
          ⟨none_, _⟩ | ⟨_, _, uses⟩
        · cases none_
        · obtain ⟨d, first⟩ := uses.phrase split
          have shorter := statement_shortens rule.toSoundRule blocks.sound run
          apply ((ih rest.length (size ▸ shorter) rfl).last (node :: ·)).mono
          intro us others
          exact .whole (.statements ⟨d, _, first⟩ others)

theorem listing_phrase (blocks : PromptBlock n block) (rule : PromptRule n expr)
    {nodes : List Node} {used rest : List Token} (split : ts = used ++ rest)
    (run : Parse.listing expr block finish ts = .ok nodes rest) : Phrase Statements used := by
  have uses := SoundBlock.statements rule.toSoundRule blocks.sound (unread_bind run)
  obtain ⟨d, derived⟩ := uses.phrase split
  exact ⟨d, nodes, derived⟩

/-- The statements go on as long as there is one. -/
theorem listing_stops (blocks : PromptBlock n block) (rule : PromptRule n expr)
    {nodes : List Node} {rest : List Token}
    (run : Parse.listing expr block finish ts = .ok nodes rest) :
    HeadKind (¬ StartsStatement ·) rest := by
  induction size : ts.length using Nat.strongRecOn generalizing ts nodes with
  | ind k ih =>
    rw [listing_eq rule.toSoundRule blocks.sound] at run
    obtain ⟨result, mid, first, more⟩ := bind_ok_iff.mp run
    cases result with
    | none =>
      obtain ⟨rfl, rfl⟩ := pure_ok more
      rcases SoundBlock.statement rule.toSoundRule blocks.sound first with
        ⟨_, rfl⟩ | ⟨_, none_, _⟩
      · exact no_start_of_absent first
      · cases none_
    | some node =>
      obtain ⟨others, _, later, last⟩ := bind_ok_iff.mp more
      obtain ⟨_, rfl⟩ := pure_ok last
      have shorter := statement_shortens rule.toSoundRule blocks.sound first
      exact ih mid.length (size ▸ shorter) later rfl

theorem braced (blocks : PromptBlock n block) (rule : PromptRule n expr) :
    Prompt (Phrase Block) (braced expr block) finish ts := by
  apply Prompt.consume
  · intro opening opens
    have closes : (Token.sample .rightBrace).kind = .rightBrace := rfl
    exact ⟨_, .braced opens .noStatements closes⟩
  · intro opening rest _ opens
    apply (blocks.listing rule).closed (blocks.listing_phrase rule)
    · intro us closing body closes
      exact .whole (.braced opens body closes)
    · intro nodes us closing rest body closes
      exact .done nodes

end PromptBlock

theorem block_prompt (n : Nat) : PromptBlock n (block n) := by
  induction n with
  | zero => exact ⟨block_sound 0, fun _ _ => .tooDeep⟩
  | succ n ih => exact ⟨block_sound (n + 1), fun _ _ => (ih.braced (expression_prompt n)).deepen⟩

/-- A file is stopped by the first token with which no list of statements goes on. -/
theorem file_prompt (n : Nat) (finish : Location) (ts : List Token) :
    Prompt (Phrase Statements) (file n) finish ts := by
  have blocks := block_prompt n
  have rule := expression_prompt n
  apply (blocks.listing rule).bind fun _ => .whole
  intro nodes used rest split run
  have body := blocks.listing_phrase rule split run
  have stops := blocks.listing_stops rule run
  cases rest with
  | nil =>
    refine Prompt.of_head (fun us head => ?_) (.done nodes)
    obtain rfl := List.head?_eq_none_iff.mp head
    rfl
  | cons t rest =>
    -- The statements end at a token that starts none, and more statements could follow them.
    apply Prompt.refuse [] ⟨.unexpectedToken t [.ifWord, .identifier], 0⟩
    · intro us head
      obtain ⟨more, rfl⟩ := List.head?_eq_some_iff.mp head
      exact ⟨t :: more, rfl⟩
    · rfl
    · rw [headKind_cons] at stops ⊢
      simpa [StartsStatement, SourceError.asksFor] using stops
    · exact .whole (by simpa using body)
    · intro t asks
      obtain ⟨more, first⟩ : Begins (Phrase Statement) [t] := by
        apply PromptBlock.begins_statement
        simpa [StartsStatement, SourceError.asksFor] using asks
      exact ⟨more, body.statements_append first.statement⟩

end ShiFormat
