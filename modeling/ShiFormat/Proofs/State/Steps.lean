import Mathlib.Data.List.Chain
import ShiFormat.Proofs.Errors.Rounds
import ShiFormat.Proofs.State.Machine

/-!
A step of the machine follows a parsing step if it comes to the same reply, without a fault, and
walks there steadily: it never steps back in the tokens, never past their end, and never to fewer
levels than it began with or to more than there may be.
-/
namespace ShiFormat

structure Walk.Steady {α : Type} (walk : Walk α) (w : Window) (s : Stand) : Prop where
  onward : (s :: walk.passed).IsChain fun before after => before.current ≤ after.current
  last : (s :: walk.passed).getLast? = some walk.stand
  within : ∀ place ∈ s :: walk.passed, place.current ≤ w.tokens.length ∧
    s.depth ≤ place.depth ∧ place.depth ≤ nestingLimit

namespace Walk.Steady
variable {α β : Type} {w : Window} {s : Stand}

/-- A steady walk goes on steadily over more places that keep within the same bounds. -/
theorem extend {first : Walk α} {places : List Stand} {place : Stand} (before : first.Steady w s)
    (onward : (first.stand :: places).IsChain fun before after => before.current ≤ after.current)
    (last : (first.stand :: places).getLast? = some place)
    (within : ∀ place ∈ places, place.current ≤ w.tokens.length ∧
      s.depth ≤ place.depth ∧ place.depth ≤ nestingLimit) (result : Except Halt β) :
    (Walk.mk result (first.passed ++ places) place).Steady w s where
  onward := by
    obtain ⟨joint, rest⟩ := List.isChain_cons.mp onward
    rw [← List.cons_append]
    refine before.onward.append rest fun place last => ?_
    rw [before.last, Option.mem_some] at last
    exact last ▸ joint
  last := by
    have middle := before.last
    simp only [List.getLast?_cons, List.getLast?_append, Option.some.injEq] at middle last ⊢
    cases behind : places.getLast? with
    | none =>
      rw [behind] at last
      exact middle.trans last
    | some place =>
      rw [behind] at last
      exact last
  within := by
    intro place member
    rw [← List.cons_append, List.mem_append] at member
    exact member.elim (before.within place) (within place)

theorem stand_within {walk : Walk α} (steady : walk.Steady w s) :
    walk.stand.current ≤ w.tokens.length ∧ s.depth ≤ walk.stand.depth ∧
      walk.stand.depth ≤ nestingLimit :=
  steady.within walk.stand (List.mem_of_getLast? steady.last)

theorem append {first : Walk α} {more : Walk β} (before : first.Steady w s)
    (after : more.Steady w first.stand) (result : Except Halt β) :
    (Walk.mk result (first.passed ++ more.passed) more.stand).Steady w s := by
  refine before.extend after.onward after.last (fun place member => ?_) result
  obtain ⟨inside, deep, limited⟩ := after.within place (List.mem_cons_of_mem _ member)
  exact ⟨inside, Nat.le_trans before.stand_within.2.1 deep, limited⟩

theorem step {place : Stand} (inside : place.current ≤ w.tokens.length)
    (onward : s.current ≤ place.current) (deep : s.depth ≤ place.depth)
    (limited : place.depth ≤ nestingLimit) (result : Except Halt α) :
    (Walk.mk result [place] place).Steady w s where
  onward := .cons_cons onward (.singleton _)
  last := rfl
  within := by
    simp only [List.mem_cons, List.not_mem_nil, or_false, forall_eq_or_imp, forall_eq]
    exact ⟨⟨Nat.le_trans onward inside, Nat.le_refl _, Nat.le_trans deep limited⟩,
      inside, deep, limited⟩

end Walk.Steady

/-- The walk comes to a reply about the tokens that were unread. Levels that the reply leaves open
are still open where the walk ends. -/
def Walk.Tells {α : Type} (walk : Walk α) (w : Window) (s : Stand) : Reply α → Prop
  | .ok value rest =>
    walk.result = .ok value ∧ walk.stand.depth = s.depth ∧ w.unread walk.stand = rest
  | .failed failure rest =>
    walk.result = .error (.refused failure.cause) ∧
      walk.stand.depth = s.depth + failure.openLevels ∧ w.unread walk.stand = rest

/-- The place of a token or of the end. -/
def Window.Knows (w : Window) (location : Location) : Prop :=
  location = w.finish ∨ ∃ t ∈ w.tokens, t.location = location

/-- The error is about a token of the window or a place in it. It is not about a token that starts
no statement. -/
def Window.Blames (w : Window) : SourceError → Prop
  | .unexpectedToken t expected => t ∈ w.tokens ∧ expected ≠ [.ifWord, .identifier]
  | .unexpectedSymbol .. => False
  | error => w.Knows error.location

theorem Window.mem_of_unread {w : Window} {s : Stand} {t : Token} {ahead : Nat}
    (found : (w.unread s)[ahead]? = some t) : t ∈ w.tokens :=
  List.mem_of_mem_drop (List.mem_of_getElem? found)

theorem Window.knows_here (w : Window) (s : Stand) :
    w.Knows (((w.unread s).head?.map Token.location).getD w.finish) := by
  cases found : (w.unread s)[0]? with
  | none => exact .inl (by simp_all [List.head?_eq_getElem?])
  | some t => exact .inr ⟨t, mem_of_unread found, by simp_all [List.head?_eq_getElem?]⟩

namespace Machine

structure Agrees {α : Type} (w : Window) (s : Stand) (step : Machine α) (spec : Parse α) :
    Prop where
  tells : (step w s).Tells w s (spec w.finish (w.unread s))
  steady : (step w s).Steady w s
  blames : ∀ failure rest, spec w.finish (w.unread s) = .failed failure rest →
    w.Blames failure.cause

/-- A place among the tokens with `n` more levels to open. -/
structure Spare (n : Nat) (w : Window) (s : Stand) : Prop where
  inside : s.current ≤ w.tokens.length
  levels : s.depth + n = nestingLimit

def Follows {α : Type} (n : Nat) (step : Machine α) (spec : Parse α) : Prop :=
  ∀ w s, Spare n w s → Agrees w s step spec

variable {α β : Type} {w : Window} {s : Stand} {n : Nat}

theorem steady_here (spare : Spare n w s) (result : Except Halt α) :
    (Walk.mk result [] s).Steady w s where
  onward := .singleton _
  last := rfl
  within := by
    simp only [List.mem_cons, List.not_mem_nil, or_false, forall_eq]
    have := spare.levels
    exact ⟨spare.inside, Nat.le_refl _, by omega⟩

theorem Agrees.pure (spare : Spare n w s) (value : α) :
    Agrees w s (pure value) (pure value) where
  tells := ⟨rfl, rfl, rfl⟩
  steady := steady_here spare _
  blames := nofun

theorem Agrees.refuse (spare : Spare n w s) {error : SourceError} (blamed : w.Blames error) :
    Agrees w s (refuse error : Machine α) (Parse.fail error) where
  tells := ⟨rfl, rfl, rfl⟩
  steady := steady_here spare _
  blames := by
    rintro _ _ ⟨⟩
    exact blamed

theorem Agrees.of_eq {step step' : Machine α} {spec spec' : Parse α} (agrees : Agrees w s step spec)
    (same : step' w s = step w s)
    (same' : spec' w.finish (w.unread s) = spec w.finish (w.unread s)) :
    Agrees w s step' spec' where
  tells := by
    rw [same, same']
    exact agrees.tells
  steady := same ▸ agrees.steady
  blames := by
    rw [same']
    exact agrees.blames

/-- A step that only looks finds what the parsing step finds. -/
theorem Agrees.look (spare : Spare n w s) {step : Machine α} {spec : Parse α} {value : α}
    (looks : step w s = ⟨.ok value, [], s⟩)
    (finds : spec w.finish (w.unread s) = .ok value (w.unread s)) : Agrees w s step spec where
  tells := by
    rw [looks, finds]
    exact ⟨rfl, rfl, rfl⟩
  steady := looks ▸ steady_here spare _
  blames := by simp [finds]

theorem bind_ok {step : Machine α} {value : α} (next : α → Machine β)
    (done : (step w s).result = .ok value) :
    (step >>= next) w s = ⟨(next value w (step w s).stand).result,
      (step w s).passed ++ (next value w (step w s).stand).passed,
      (next value w (step w s).stand).stand⟩ := by
  simp only [Bind.bind, done]

theorem bind_error {step : Machine α} {halt : Halt} (next : α → Machine β)
    (stopped : (step w s).result = .error halt) :
    (step >>= next) w s = ⟨.error halt, (step w s).passed, (step w s).stand⟩ := by
  simp only [Bind.bind, stopped]

theorem Agrees.bind {step : Machine α} {spec : Parse α} {next : α → Machine β}
    {next' : α → Parse β} (spare : Spare n w s) (first : Agrees w s step spec)
    (later : ∀ value s', spec w.finish (w.unread s) = .ok value (w.unread s') → Spare n w s' →
      Agrees w s' (next value) (next' value)) :
    Agrees w s (step >>= next) (spec >>= next') := by
  obtain ⟨tells, steady, blames⟩ := first
  cases reply : spec w.finish (w.unread s) with
  | ok value rest =>
    rw [reply] at tells
    obtain ⟨done, level, rfl⟩ := tells
    obtain ⟨tells', steady', blames'⟩ :=
      later value (step w s).stand reply ⟨steady.stand_within.1, level ▸ spare.levels⟩
    have run : (spec >>= next') w.finish (w.unread s) =
        next' value w.finish (w.unread (step w s).stand) := by rw [Parse.bind_run, reply]
    refine ⟨?_, ?_, by rwa [run]⟩
    · rw [run, bind_ok next done]
      simp only [Walk.Tells, level] at tells' ⊢
      exact tells'
    · rw [bind_ok next done]
      exact steady.append steady' _
  | failed failure rest =>
    rw [reply] at tells
    have run : (spec >>= next') w.finish (w.unread s) = .failed failure rest := by
      rw [Parse.bind_run, reply]
    refine ⟨?_, ?_, ?_⟩
    · rw [run, bind_error next tells.1]
      exact ⟨rfl, tells.2⟩
    · rw [bind_error next tells.1]
      exact ⟨steady.onward, steady.last, steady.within⟩
    · rw [run]
      rintro _ _ ⟨⟩
      exact blames failure rest reply

/-- A step that only looks leaves the rest of the way as it is. -/
theorem look_bind {step : Machine α} {value : α} (next : α → Machine β)
    (looks : step w s = ⟨.ok value, [], s⟩) : (step >>= next) w s = next value w s := by
  rw [bind_ok next (congrArg Walk.result looks), looks]
  rfl

theorem peek_run (ahead : Nat) : peek ahead w s = ⟨.ok (w.unread s)[ahead]?, [], s⟩ := by
  rw [Window.unread, List.getElem?_drop]
  rfl

theorem here_run :
    here w s = ⟨.ok (((w.unread s).head?.map Token.location).getD w.finish), [], s⟩ := by
  rw [here, look_bind _ (peek_run 0), List.head?_eq_getElem?]
  rfl

section
variable {ahead : Nat} {kinds : List TokenKind} {token : Token}

theorem expectAt_none (absent : (w.unread s)[ahead]? = none) :
    expectAt ahead kinds w s = refuse (.unexpectedEnd w.finish kinds) w s := by
  rw [expectAt, look_bind _ (peek_run ahead), absent]
  rfl

theorem expectAt_ok (found : (w.unread s)[ahead]? = some token) (fits : token.kind ∈ kinds) :
    expectAt ahead kinds w s = ⟨.ok token, [], s⟩ := by
  rw [expectAt, look_bind _ (peek_run ahead), found]
  exact congrFun (congrFun (if_pos fits) w) s

theorem expectAt_other (found : (w.unread s)[ahead]? = some token) (other : token.kind ∉ kinds) :
    expectAt ahead kinds w s = refuse (.unexpectedToken token kinds) w s := by
  rw [expectAt, look_bind _ (peek_run ahead), found]
  exact congrFun (congrFun (if_neg other) w) s

end

theorem unread_next {token : Token} {more : List Token} (left : w.unread s = token :: more) :
    w.unread s.next = more ∧ s.next.current ≤ w.tokens.length := by
  constructor
  · have rest := List.tail_drop (l := w.tokens) (i := s.current)
    rw [show w.tokens.drop s.current = token :: more from left] at rest
    exact rest.symm
  · have some_left := congrArg List.length left
    simp only [Window.unread, List.length_drop, List.length_cons] at some_left
    rw [Stand.next_current]
    omega

theorem stand_run : stand w s = ⟨.ok s, [], s⟩ := rfl

theorem enter_ok (room : s.depth ≠ nestingLimit) :
    enter w s = ⟨.ok (), [s.deeper], s.deeper⟩ := by
  rw [enter, look_bind _ stand_run, if_neg room]
  rfl

theorem enter_refused (full : s.depth = nestingLimit) :
    enter w s = refuse (.nestingTooDeep nestingLimit
      (((w.unread s).head?.map Token.location).getD w.finish)) w s := by
  rw [enter, look_bind _ stand_run, if_pos full, look_bind _ here_run]

theorem leave_ok (opened : s.depth ≠ 0) :
    leave w s = ⟨.ok (), [s.shallower], s.shallower⟩ := by
  rw [leave, look_bind _ stand_run, if_neg opened]
  rfl

theorem consume_ok {kinds : List TokenKind} {token : Token} (found : (w.unread s)[0]? = some token)
    (fits : token.kind ∈ kinds) : consume kinds w s = ⟨.ok token, [s.next], s.next⟩ := by
  rw [consume, look_bind _ (expectAt_ok found fits)]
  rfl

theorem nested_ok {step : Machine α} {value : α} (room : s.depth ≠ nestingLimit)
    (done : (step w s.deeper).result = .ok value) (opened : (step w s.deeper).stand.depth ≠ 0) :
    nested step w s = ⟨.ok value,
      s.deeper :: ((step w s.deeper).passed ++ [(step w s.deeper).stand.shallower]),
      (step w s.deeper).stand.shallower⟩ := by
  have entered : enter w s = ⟨.ok (), [s.deeper], s.deeper⟩ := enter_ok room
  rw [nested, bind_ok _ (by rw [entered]), entered, bind_ok _ done,
    bind_ok _ (by rw [leave_ok opened]), leave_ok opened]
  rfl

/-- A step that fails leaves its level open. -/
theorem nested_error {step : Machine α} {halt : Halt} (room : s.depth ≠ nestingLimit)
    (stopped : (step w s.deeper).result = .error halt) :
    nested step w s =
      ⟨.error halt, s.deeper :: (step w s.deeper).passed, (step w s.deeper).stand⟩ := by
  have entered : enter w s = ⟨.ok (), [s.deeper], s.deeper⟩ := enter_ok room
  rw [nested, bind_ok _ (by rw [entered]), entered, bind_error _ stopped]
  rfl

namespace Follows

theorem pure (value : α) : Follows n (pure value) (pure value) := fun _ _ spare => .pure spare value

theorem bind {step : Machine α} {spec : Parse α} {next : α → Machine β} {next' : α → Parse β}
    (first : Follows n step spec) (later : ∀ value, Follows n (next value) (next' value)) :
    Follows n (step >>= next) (spec >>= next') :=
  fun w s spare => (first w s spare).bind spare fun value s' _ spare' => later value w s' spare'

theorem here : Follows n here Parse.here := fun _ _ spare => .look spare here_run rfl

theorem kindAt (ahead : Nat) : Follows n (kindAt ahead) (Parse.kindAt ahead) :=
  fun _ _ spare => .look spare (look_bind _ (peek_run ahead)) rfl

theorem nextIs (kind : TokenKind) : Follows n (nextIs kind) (Parse.nextIs kind) := by
  intro w s spare
  refine .look spare ?_ (Parse.nextIs_run kind)
  rw [Machine.nextIs, look_bind _ (peek_run 0), ← List.head?_eq_getElem?]
  rfl

theorem expectAt (ahead : Nat) {kinds : List TokenKind} (other : kinds ≠ [.ifWord, .identifier]) :
    Follows n (expectAt ahead kinds) (Parse.expectAt ahead kinds) := by
  intro w s spare
  cases found : (w.unread s)[ahead]? with
  | none =>
    have refused : w.Blames (.unexpectedEnd w.finish kinds) := .inl rfl
    refine (Agrees.refuse spare refused).of_eq (expectAt_none found) ?_
    simp only [Parse.expectAt, found]
    rfl
  | some token =>
    by_cases fits : token.kind ∈ kinds
    · refine .look spare (expectAt_ok found fits) ?_
      simp only [Parse.expectAt, found, if_pos fits]
    · have refused : w.Blames (.unexpectedToken token kinds) := ⟨w.mem_of_unread found, other⟩
      refine (Agrees.refuse spare refused).of_eq (expectAt_other found fits) ?_
      simp only [Parse.expectAt, found, if_neg fits]
      rfl

theorem consume {kinds : List TokenKind} (other : kinds ≠ [.ifWord, .identifier]) :
    Follows n (consume kinds) (Parse.consume kinds) := by
  intro w s spare
  cases left : w.unread s with
  | nil =>
    have absent : (w.unread s)[0]? = none := by rw [left]; rfl
    have refused : w.Blames (.unexpectedEnd w.finish kinds) := .inl rfl
    refine (Agrees.refuse spare refused).of_eq ?_ (by rw [left]; rfl)
    rw [Machine.consume, bind_error _ (by rw [expectAt_none absent]; rfl), expectAt_none absent]
    rfl
  | cons token more =>
    have found : (w.unread s)[0]? = some token := by rw [left]; rfl
    by_cases fits : token.kind ∈ kinds
    · obtain ⟨rest, inside⟩ := unread_next left
      have walk := consume_ok found fits
      have spec : Parse.consume kinds w.finish (w.unread s) = .ok token (w.unread s.next) := by
        rw [left, rest, Parse.consume_run fits]
      refine ⟨?_, ?_, by simp [spec]⟩
      · rw [walk, spec]
        exact ⟨rfl, rfl, rfl⟩
      · rw [walk]
        exact .step inside (Nat.le_succ _) (Nat.le_refl _) (spare.levels ▸ Nat.le_add_right _ _) _
    · have refused : w.Blames (.unexpectedToken token kinds) := ⟨w.mem_of_unread found, other⟩
      refine (Agrees.refuse spare refused).of_eq ?_ ?_
      · rw [Machine.consume, bind_error _ (by rw [expectAt_other found fits]; rfl),
          expectAt_other found fits]
        rfl
      · rw [left]
        exact if_neg fits

theorem nested {step : Machine α} {spec : Parse α} (inner : Follows n step spec) :
    Follows (n + 1) (nested step) (Parse.deepen spec) := by
  intro w s spare
  have levels := spare.levels
  have room : s.depth ≠ nestingLimit := by omega
  have inside : s.deeper.current ≤ w.tokens.length := spare.inside
  have limited : s.deeper.depth ≤ nestingLimit := by
    rw [Stand.deeper_depth]
    omega
  have below : (Walk.mk (Except.ok ()) [s.deeper] s.deeper).Steady w s :=
    .step (s := s) inside (Nat.le_refl _) (Nat.le_succ _) limited _
  have unread : w.unread s.deeper = w.unread s := rfl
  obtain ⟨tells, steady, blames⟩ := inner w s.deeper
    ⟨spare.inside, by rw [Stand.deeper_depth]; omega⟩
  rw [unread] at tells blames
  have through := below.append steady
  cases reply : spec w.finish (w.unread s) with
  | ok value rest =>
    rw [reply] at tells
    obtain ⟨done, level, rfl⟩ := tells
    have opened : (step w s.deeper).stand.depth = s.depth + 1 := level
    have walk := nested_ok room done (by omega)
    have run : Parse.deepen spec w.finish (w.unread s) =
        .ok value (w.unread (step w s.deeper).stand) := by
      rw [Parse.deepen, reply]
    have back : (step w s.deeper).stand.shallower.depth = s.depth := by
      rw [Stand.shallower_depth, opened, Nat.add_sub_cancel]
    refine ⟨?_, ?_, by simp [run]⟩
    · rw [walk, run]
      exact ⟨rfl, back, rfl⟩
    · rw [walk]
      have onward : [(step w s.deeper).stand, (step w s.deeper).stand.shallower].IsChain
          fun before after => before.current ≤ after.current :=
        .cons_cons (Nat.le_refl (step w s.deeper).stand.current) (.singleton _)
      refine (through (.ok value)).extend onward rfl ?_ _
      simp only [List.mem_singleton, forall_eq, back]
      exact ⟨steady.stand_within.1, Nat.le_refl _, by omega⟩
  | failed failure rest =>
    rw [reply] at tells
    obtain ⟨refused, level, rfl⟩ := tells
    have walk := nested_error room refused
    have run : Parse.deepen spec w.finish (w.unread s) =
        .failed ⟨failure.cause, failure.openLevels + 1⟩ (w.unread (step w s.deeper).stand) := by
      rw [Parse.deepen, reply]
    refine ⟨?_, ?_, ?_⟩
    · rw [walk, run]
      refine ⟨rfl, ?_, rfl⟩
      rw [level, Stand.deeper_depth, Nat.add_assoc, Nat.add_comm 1]
    · rw [walk]
      exact through _
    · rw [run]
      rintro _ _ ⟨⟩
      exact blames failure _ reply

theorem tooDeep {step : Machine α} : Follows 0 (Machine.nested step) Parse.tooDeep := by
  intro w s spare
  have refused : w.Blames (.nestingTooDeep nestingLimit
      (((w.unread s).head?.map Token.location).getD w.finish)) := w.knows_here s
  refine (Agrees.refuse spare refused).of_eq ?_ rfl
  have full := enter_refused (w := w) spare.levels
  rw [Machine.nested, bind_error _ (by rw [full]; rfl), full]
  rfl

end Follows

end Machine
end ShiFormat
