import ShiFormat.Proofs.State.Rules

/-!
One parser asked for trees again and again. What an error leaves open stays open, so a call may
begin at any place and at any number of levels; from there it behaves as the first one does.
-/
namespace ShiFormat
open Parse

section
variable {n : Nat} {expr : ExpressionRule} {block : Parse (List Node)} {finish : Location}
  {ts rest : List Token}

theorem SoundRule.shortens {m : Nat} {node : Node} (sound : SoundRule n expr)
    (run : expr m finish ts = .ok (some node) rest) : rest.length < ts.length := by
  obtain ⟨used, d, rfl, _, derived, _⟩ := sound.found run
  obtain ⟨t, more, rfl, _⟩ := derived.starts
  exact length_lt_of_split rfl

/-- Where the statements stop there are none. -/
theorem listing_again (sound : SoundRule n expr) (blocks : SoundBlock n block) {body : List Node}
    (run : listing expr block finish ts = .ok body rest) :
    listing expr block finish rest = .ok [] rest := by
  induction size : ts.length using Nat.strongRecOn generalizing ts body with
  | ind k ih =>
    rw [listing_eq sound blocks] at run
    obtain ⟨found, mid, first, more⟩ := bind_ok_iff.mp run
    cases found with
    | none =>
      obtain ⟨_, rfl⟩ := pure_ok more
      obtain ⟨_, rfl⟩ | ⟨_, found, _⟩ := blocks.statement sound first
      · rw [listing_eq sound blocks]
        change (statement expr block >>= _) finish _ = _
        rw [bind_run, first]
        rfl
      · cases found
    | some node =>
      obtain ⟨others, mid', later, last⟩ := bind_ok_iff.mp more
      obtain ⟨_, rfl⟩ := pure_ok last
      exact ih mid.length (size ▸ statement_shortens sound blocks first) later rfl

end

namespace Parser

/-- The statements that a call reads before it looks at what is left. -/
def body (p : Parser) : Reply (List Node) :=
  listing (expression (nestingLimit - p.depth)) (block (nestingLimit - p.depth)) p.finish p.rest

theorem parse_body (p : Parser) : p.parse = match p.body with
    | .ok nodes [] => (.ok (.statementList nodes), { p with rest := [] })
    | .ok _ (t :: more) =>
      (.error (.unexpectedToken t [.ifWord, .identifier]), { p with rest := t :: more })
    | .failed failure rest =>
      (.error failure.cause, { p with rest, depth := p.depth + failure.openLevels }) := by
  have run : file (nestingLimit - p.depth) p.finish p.rest = match p.body with
      | .ok nodes [] => .ok nodes []
      | .ok _ (t :: more) => .failed ⟨.unexpectedToken t [.ifWord, .identifier], 0⟩ (t :: more)
      | .failed failure rest => .failed failure rest := by
    change (listing _ _ >>= fun nodes => unread >>= fun left => _) p.finish p.rest = _
    rw [bind_run]
    unfold body
    cases listing (expression (nestingLimit - p.depth)) (block (nestingLimit - p.depth))
        p.finish p.rest with
    | ok nodes rest => cases rest <;> rfl
    | failed failure rest => rfl
  rw [parse, run]
  cases p.body with
  | ok nodes rest => cases rest <;> rfl
  | failed failure rest => rfl

/-- A call that fails at a token that starts no statement leaves the parser where it looked. -/
theorem parse_leftover {p : Parser} {nodes : List Node} {t : Token} {more : List Token}
    (body : p.body = .ok nodes (t :: more)) :
    p.parse =
      (.error (.unexpectedToken t [.ifWord, .identifier]), { p with rest := t :: more }) := by
  rw [parse_body, body]

theorem parse_all {p : Parser} {nodes : List Node} (body : p.body = .ok nodes []) :
    p.parse = (.ok (.statementList nodes), { p with rest := [] }) := by
  rw [parse_body, body]

/-- A call that leaves the levels as they are is followed by one that reads nothing. -/
theorem body_again {p : Parser} {nodes : List Node} {rest : List Token}
    (body : p.body = .ok nodes rest) : Parser.body { p with rest } = .ok [] rest :=
  listing_again (expression_sound _) (block_sound _) body

end Parser

/-- The parser stands here in its window. -/
structure Parser.StandsAt (p : Parser) (w : Window) (s : Stand) : Prop where
  rest : p.rest = w.unread s
  depth : p.depth = s.depth
  finish : p.finish = w.finish
  inside : s.current ≤ w.tokens.length
  limited : s.depth ≤ nestingLimit

namespace Machine
variable {p : Parser} {w : Window} {s : Stand}

theorem listing_agrees (at_ : p.StandsAt w s) :
    Agrees w s (listing (expression deepest) (block deepest))
      (Parse.listing (Parse.expression (nestingLimit - p.depth))
        (Parse.block (nestingLimit - p.depth))) := by
  have spare : Spare (nestingLimit - p.depth) w s := by
    refine ⟨at_.inside, ?_⟩
    have := at_.limited
    have := at_.depth
    omega
  have enough : nestingLimit - p.depth < deepest := Nat.lt_succ_of_le (Nat.sub_le _ _)
  exact (expression_follows enough).listing (block_follows enough) (expression_sound _)
    (block_sound _) w s spare

/-- What a call makes of the statements it has read and of the tokens left. -/
def conclude (nodes : List Node) : List Token → Except Halt Node
  | [] => .ok (.statementList nodes)
  | t :: _ => .error (.refused (.unexpectedToken t [.ifWord, .identifier]))

theorem parse_ok {nodes : List Node}
    (done : (listing (expression deepest) (block deepest) w s).result = .ok nodes) :
    let walk := listing (expression deepest) (block deepest) w s
    parse w s = ⟨conclude nodes (w.unread walk.stand), walk.passed, walk.stand⟩ := by
  intro walk
  rw [parse, bind_ok _ done, look_bind _ (peek_run 0)]
  cases w.unread (listing (expression deepest) (block deepest) w s).stand with
  | nil => exact congrArg (fun passed => Walk.mk _ passed _) (List.append_nil _)
  | cons t more => exact congrArg (fun passed => Walk.mk _ passed _) (List.append_nil _)

/-- A call of the machine is a call of the parser, and a steady walk. -/
structure Calls (w : Window) (s : Stand) (p : Parser) : Prop where
  same : (parse w s).result = p.parse.1.mapError .refused
  stands : p.parse.2.StandsAt w (parse w s).stand
  steady : (parse w s).Steady w s

theorem parse_calls (at_ : p.StandsAt w s) : Calls w s p := by
  obtain ⟨tells, steady, blames⟩ := listing_agrees at_
  rw [← at_.finish, ← at_.rest] at tells
  cases body : p.body with
  | ok nodes rest =>
    rw [show Parse.listing _ _ p.finish p.rest = _ from body] at tells
    obtain ⟨done, level, left⟩ := tells
    have stands : Parser.StandsAt { p with rest } w
        (listing (expression deepest) (block deepest) w s).stand :=
      ⟨left.symm, at_.depth.trans level.symm, at_.finish, steady.stand_within.1,
        steady.stand_within.2.2⟩
    refine ⟨?_, ?_, parse_ok done ▸ ⟨steady.onward, steady.last, steady.within⟩⟩
    · rw [parse_ok done, left, Parser.parse_body, body]
      cases rest <;> rfl
    · rw [parse_ok done, Parser.parse_body, body]
      cases rest <;> exact stands
  | failed failure rest =>
    rw [show Parse.listing _ _ p.finish p.rest = _ from body] at tells
    obtain ⟨refused, level, rfl⟩ := tells
    have walk : parse w s = ⟨.error (.refused failure.cause), _, _⟩ := bind_error _ refused
    refine ⟨?_, ?_, ?_⟩
    · rw [walk, Parser.parse_body, body]
      rfl
    · rw [walk, Parser.parse_body, body]
      exact ⟨rfl, by rw [level, at_.depth], at_.finish, steady.stand_within.1,
        steady.stand_within.2.2⟩
    · rw [walk]
      exact ⟨steady.onward, steady.last, steady.within⟩

/-- A step that closes the levels it opened wherever it succeeds. It reads something if it yields a
node, and leaves the machine as it was if it yields none. -/
structure Balanced (w : Window) (s : Stand) (step : Machine (Option Node)) : Prop where
  steady : (step w s).Steady w s
  found : ∀ node, (step w s).result = .ok (some node) →
    (step w s).stand.depth = s.depth ∧ s.current < (step w s).stand.current
  absent : (step w s).result = .ok none → (step w s).stand = s
  faultless : ∀ f, (step w s).result ≠ .error (.fault f)

theorem Agrees.balanced {step : Machine (Option Node)} {spec : Parse (Option Node)}
    (inside : s.current ≤ w.tokens.length) (agrees : Agrees w s step spec)
    (found : ∀ node rest, spec w.finish (w.unread s) = .ok (some node) rest →
      rest.length < (w.unread s).length)
    (absent : ∀ rest, spec w.finish (w.unread s) = .ok none rest → rest = w.unread s) :
    Balanced w s step := by
  obtain ⟨tells, steady, blames⟩ := agrees
  cases reply : spec w.finish (w.unread s) with
  | failed failure rest =>
    rw [reply] at tells
    exact ⟨steady, by simp [tells.1], by simp [tells.1], by simp [tells.1]⟩
  | ok result rest =>
    rw [reply] at tells
    obtain ⟨done, level, left⟩ := tells
    have within := steady.stand_within.1
    cases result with
    | some node =>
      refine ⟨steady, fun _ _ => ⟨level, ?_⟩, by simp [done], by simp [done]⟩
      have shorter := found node rest reply
      rw [← left, Window.unread, Window.unread, List.length_drop, List.length_drop] at shorter
      omega
    | none =>
      refine ⟨steady, by simp [done], fun _ => ?_, by simp [done]⟩
      have same := congrArg List.length (left.trans (absent rest reply))
      rw [Window.unread, Window.unread, List.length_drop, List.length_drop] at same
      have current : (step w s).stand.current = s.current := by omega
      cases stands : (step w s).stand
      rw [stands] at current level
      cases current
      cases level
      rfl

/-- An expression and a statement are balanced wherever they are tried, in any recursion that is
deep enough. -/
theorem rules_balanced {deep : Nat} (inside : s.current ≤ w.tokens.length)
    (limited : s.depth ≤ nestingLimit) (enough : nestingLimit - s.depth < deep) :
    (∀ minimum ≤ notPrecedence, Balanced w s (expression deep minimum)) ∧
      Balanced w s (statement (expression deep) (block deep)) := by
  have spare : Spare (nestingLimit - s.depth) w s := ⟨inside, by omega⟩
  have follows := expression_follows enough
  have sound := expression_sound (nestingLimit - s.depth)
  have blocks : SoundBlock (nestingLimit - s.depth) (Parse.block (nestingLimit - s.depth)) :=
    block_sound _
  constructor
  · intro minimum low
    exact (follows minimum low w s spare).balanced inside (fun _ _ => sound.shortens)
      fun _ => sound.absent
  · have statements := follows.statement (block_follows enough) sound blocks w s spare
    refine statements.balanced inside (fun _ _ => statement_shortens sound blocks)
      fun rest run => ?_
    obtain ⟨_, same⟩ | ⟨_, found, _⟩ := blocks.statement sound run
    · exact same
    · cases found

/-- Where the machine stands after a number of calls. -/
def standAfter (w : Window) : Nat → Stand
  | 0 => ⟨0, 0⟩
  | n + 1 => (parse w (standAfter w n)).stand

end Machine

/-- The parser after a number of calls. -/
def Parser.after (p : Parser) : Nat → Parser
  | 0 => p
  | n + 1 => (p.after n).parse.2

theorem Parser.after_settled {p : Parser} {n : Nat} (settled : (p.after n).parse.2 = p.after n)
    {later : Nat} (onward : n ≤ later) : p.after later = p.after n := by
  induction onward with
  | refl => rfl
  | step _ ih => rw [after, ih, settled]

/-- A call that leaves the parser as the next call finds it is answered alike from then on. -/
theorem Parser.after_again {p : Parser} {n : Nat} {result : Except SourceError Node}
    (again : (p.after n).parse.2.parse = (result, (p.after n).parse.2)) {later : Nat}
    (past : n < later) : (p.after later).parse.1 = result := by
  have settled : (p.after (n + 1)).parse.2 = p.after (n + 1) := by
    change (p.after n).parse.2.parse.2 = (p.after n).parse.2
    rw [again]
  rw [after_settled settled past]
  exact congrArg Prod.fst again

theorem standsAfter (tokens : List Token) (n : Nat) :
    ((Parser.ofTokens tokens).after n).StandsAt (Window.ofTokens tokens)
      (Machine.standAfter (Window.ofTokens tokens) n) := by
  induction n with
  | zero => exact ⟨rfl, rfl, rfl, Nat.zero_le _, Nat.zero_le _⟩
  | succ n ih => exact (Machine.parse_calls ih).stands

/-- A call that comes to a tree has read all tokens, and every later one finds nothing. -/
theorem Parser.all_read {p : Parser} {tree : Node} (accepted : p.parse.1 = .ok tree) :
    p.parse.2 = { p with rest := [] } ∧
      Parser.parse { p with rest := [] } = (.ok (.statementList []), { p with rest := [] }) := by
  cases body : p.body with
  | failed failure rest =>
    rw [parse_body, body] at accepted
    cases accepted
  | ok nodes rest =>
    cases rest with
    | cons t more =>
      rw [parse_leftover body] at accepted
      cases accepted
    | nil => exact ⟨by rw [parse_all body], parse_all (body_again body)⟩

/-- A call that fails at a token that starts no statement does so again. -/
theorem Parser.left_over {p : Parser} {w : Window} {s : Stand} (at_ : p.StandsAt w s) {t : Token}
    (refused : p.parse.1 = .error (.unexpectedToken t [.ifWord, .identifier])) :
    p.parse.2.depth = p.depth ∧ p.parse.2.parse = (p.parse.1, p.parse.2) := by
  cases body : p.body with
  | failed failure rest =>
    have blamed := (Machine.listing_agrees at_).blames
    rw [← at_.finish, ← at_.rest] at blamed
    have other := blamed failure rest body
    rw [parse_body, body] at refused
    cases failure
    cases refused
    exact absurd rfl other.2
  | ok nodes rest =>
    cases rest with
    | cons t more =>
      rw [parse_leftover body]
      exact ⟨rfl, parse_leftover (body_again body)⟩
    | nil =>
      rw [parse_all body] at refused
      cases refused

open Machine in
/-- Any number of calls of one parser, seen as walks of the machine over its tokens. -/
theorem parser_state (tokens : List Token) (n : Nat) :
    let w := Window.ofTokens tokens
    let s := standAfter w n
    let p := (Parser.ofTokens tokens).after n
    let call := Machine.parse w s
    p.StandsAt w s ∧ call.result = p.parse.1.mapError .refused ∧ call.Steady w s ∧
    (∀ tree, p.parse.1 = .ok tree → call.stand = ⟨w.tokens.length, s.depth⟩ ∧
      ∀ later > n, ((Parser.ofTokens tokens).after later).parse.1 = .ok (.statementList [])) ∧
    (∀ t, p.parse.1 = .error (.unexpectedToken t [.ifWord, .identifier]) →
      call.stand.depth = s.depth ∧
      ∀ later > n, ((Parser.ofTokens tokens).after later).parse.1 = p.parse.1) ∧
    ∀ place deep, place.current ≤ w.tokens.length → place.depth ≤ nestingLimit →
      nestingLimit - place.depth < deep →
      (∀ minimum ≤ notPrecedence, Balanced w place (expression deep minimum)) ∧
        Balanced w place (statement (expression deep) (block deep)) := by
  intro w s p call
  have stands : p.StandsAt w s := standsAfter tokens n
  obtain ⟨same, stands', steady⟩ := parse_calls stands
  refine ⟨stands, same, steady, fun tree accepted => ?_, fun t refused => ?_,
    fun place deep => rules_balanced⟩
  · obtain ⟨after, again⟩ := Parser.all_read accepted
    rw [← after] at again
    refine ⟨?_, fun later past => ?_⟩
    · have left := congrArg List.length stands'.rest
      rw [after, Window.unread, List.length_drop] at left
      have current : call.stand.current = w.tokens.length :=
        Nat.le_antisymm stands'.inside (Nat.sub_eq_zero_iff_le.mp left.symm)
      have depth : call.stand.depth = s.depth := by
        rw [← stands'.depth, after, ← stands.depth]
      rw [← current, ← depth]
    · exact Parser.after_again again past
  · obtain ⟨depth, again⟩ := Parser.left_over stands refused
    refine ⟨?_, fun later past => ?_⟩
    · rw [← stands'.depth, depth, stands.depth]
    · exact Parser.after_again again past

end ShiFormat
