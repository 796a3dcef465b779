import ShiFormat.Proofs.Parsing.Soundness

/-!
Where a parsing step fails. A step is prompt if it goes on as long as what it has read begins a
phrase, and fails at the first token that no phrase goes on with. It looks at one token past those
it reads, so what comes after that token does not matter to it.
-/
namespace ShiFormat
open Grammar Parse

namespace SourceError

/-- The kinds that the error asks for. -/
def asksFor : SourceError → List TokenKind
  | .unexpectedToken _ expected => expected
  | .unexpectedEnd _ expected => expected
  | _ => []

/-- The error is about the first of the tokens ahead, or about the end of the input if there is
none. -/
def pointsAt (finish : Location) (ahead : List Token) : SourceError → Prop
  | .unexpectedToken token _ => ahead.head? = some token
  | .unexpectedEnd location _ => ahead = [] ∧ location = finish
  | .semantic _ location => location = (ahead.head?.map Token.location).getD finish
  | _ => False

def isNesting : SourceError → Bool
  | .nestingTooDeep _ _ => true
  | _ => false

end SourceError

/-- Some token of a kind. -/
def Token.sample (kind : TokenKind) : Token := ⟨kind, "", .unknown⟩

/-- The tokens are the first ones of a phrase. -/
def Begins (phrase : List Token → Prop) (ts : List Token) : Prop := ∃ more, phrase (ts ++ more)

theorem Begins.mono {p q : List Token → Prop} {ts : List Token} (begins : Begins p ts)
    (grows : ∀ us, p us → Begins q us) : Begins q ts := by
  obtain ⟨more, whole⟩ := begins
  obtain ⟨others, longer⟩ := grows _ whole
  exact ⟨more ++ others, by simpa using longer⟩

theorem Begins.whole {p : List Token → Prop} {ts : List Token} (phrase : p ts) : Begins p ts :=
  ⟨[], by rwa [List.append_nil]⟩

theorem Begins.before {p : List Token → Prop} {ts us : List Token} (begins : Begins p (ts ++ us)) :
    Begins p ts := by
  obtain ⟨more, whole⟩ := begins
  exact ⟨us ++ more, by rwa [← List.append_assoc]⟩

theorem Begins.after {p : List Token → Prop} {before ts : List Token}
    (begins : Begins (fun us => p (before ++ us)) ts) : Begins p (before ++ ts) := by
  obtain ⟨more, whole⟩ := begins
  exact ⟨more, by simpa using whole⟩

/-- A step that fails behind `seen`, whatever comes after the next token. What has been seen begins
a phrase, and does so with any token that the error asks for, which the next one is not. -/
structure Stops {α : Type} (phrase : List Token → Prop) (step : Parse α) (finish : Location)
    (failure : Failure) (seen ahead : List Token) : Prop where
  points : failure.cause.pointsAt finish ahead
  unasked : HeadKind (· ∉ failure.cause.asksFor) ahead
  begins : Begins phrase seen
  asked : ∀ t : Token, t.kind ∈ failure.cause.asksFor → Begins phrase (seen ++ [t])
  settled : ∀ other, other.head? = ahead.head? →
    ∃ left, step finish (seen ++ other) = .failed failure left

/-- What a step does on these tokens depends on no more than those it reads and the next one, and it
is stopped only by a token that no phrase goes on with. -/
structure Prompt {α : Type} (phrase : List Token → Prop) (step : Parse α) (finish : Location)
    (ts : List Token) : Prop where
  found : ∀ {value rest}, step finish ts = .ok value rest →
    ∃ used, ts = used ++ rest ∧
      ∀ other, other.head? = rest.head? → step finish (used ++ other) = .ok value other
  stopped : ∀ {failure left}, step finish ts = .failed failure left →
    failure.cause.isNesting = true ∨
      ∃ seen ahead, ts = seen ++ ahead ∧ Stops phrase step finish failure seen ahead

theorem Uses.phrase {n : Nat} {p : Nat → List Token → Prop} {ts used rest : List Token}
    (uses : Uses n p ts rest) (split : ts = used ++ rest) : ∃ d, p d used := by
  obtain ⟨us, d, other, _, derived⟩ := uses
  have same : us = used := List.append_cancel_right (other.symm.trans split)
  exact ⟨d, same ▸ derived⟩

open Grammar in
theorem startsWith_eq_true_iff {kind : TokenKind} {ts : List Token} :
    startsWith kind ts = true ↔ ∃ t rest, ts = t :: rest ∧ t.kind = kind := by
  cases ts with
  | nil => simp [startsWith]
  | cons t rest => simp [startsWith]

theorem head_append {used rest other : List Token} (same : other.head? = rest.head?) :
    (used ++ other).head? = (used ++ rest).head? := by
  cases used with
  | nil => exact same
  | cons t used => rfl

namespace Parse
variable {α β : Type} {finish : Location} {ts left : List Token}

instance : LawfulMonad Parse := by
  refine LawfulMonad.mk' Parse ?_ ?_ ?_
  · intro α step
    funext finish ts
    show (step >>= pure) finish ts = step finish ts
    rw [bind_run]
    cases step finish ts <;> rfl
  · intro α β value next
    rfl
  · intro α β γ first next last
    funext finish ts
    simp only [bind_run]
    cases first finish ts <;> rfl

theorem bind_eq {first other : Parse α} {next : α → Parse β}
    (same : first finish ts = other finish ts) :
    (first >>= next) finish ts = (other >>= next) finish ts := by rw [bind_run, same, bind_run]

theorem bind_congr {first : Parse α} {next other : α → Parse β}
    (same : ∀ value rest, first finish ts = .ok value rest →
      next value finish rest = other value finish rest) :
    (first >>= next) finish ts = (first >>= other) finish ts := by
  rw [bind_run, bind_run]
  cases run : first finish ts with
  | failed failure left => rfl
  | ok value rest => exact same value rest run

theorem deepen_failed_iff {step : Parse α} {failure : Failure} :
    deepen step finish ts = .failed failure left ↔
      ∃ inner, step finish ts = .failed inner left ∧
        failure = ⟨inner.cause, inner.openLevels + 1⟩ := by
  unfold deepen
  cases step finish ts with
  | ok value rest => simp
  | failed inner rest =>
    simp only [Reply.failed.injEq]
    constructor
    · rintro ⟨rfl, rfl⟩
      exact ⟨inner, ⟨rfl, rfl⟩, rfl⟩
    · rintro ⟨_, ⟨rfl, rfl⟩, rfl⟩
      exact ⟨rfl, rfl⟩

end Parse

namespace Stops
variable {α β : Type} {p q : List Token → Prop} {finish : Location} {failure : Failure}
  {seen ahead : List Token}

theorem mono {step : Parse α} (stops : Stops p step finish failure seen ahead)
    (grows : ∀ us, p us → Begins q us) : Stops q step finish failure seen ahead where
  points := stops.points
  unasked := stops.unasked
  begins := stops.begins.mono grows
  asked t asks := (stops.asked t asks).mono grows
  settled := stops.settled

/-- A step on more tokens stops where the step that it goes on with stops. -/
theorem later {step : Parse α} {after : Parse β} {before : List Token}
    (stops : Stops (fun us => p (before ++ us)) after finish failure seen ahead)
    (settled : ∀ other, other.head? = ahead.head? →
      ∃ left, step finish (before ++ seen ++ other) = .failed failure left) :
    Stops p step finish failure (before ++ seen) ahead where
  points := stops.points
  unasked := stops.unasked
  begins := stops.begins.after
  asked t asks := by
    rw [List.append_assoc]
    exact (stops.asked t asks).after
  settled := settled

end Stops

namespace Prompt
variable {α β : Type} {p q : List Token → Prop} {finish : Location} {ts : List Token}

theorem mono {step : Parse α} (prompt : Prompt p step finish ts)
    (grows : ∀ us, p us → Begins q us) : Prompt q step finish ts where
  found := prompt.found
  stopped run := by
    rcases prompt.stopped run with deep | ⟨seen, ahead, split, stops⟩
    · exact .inl deep
    · exact .inr ⟨seen, ahead, split, stops.mono grows⟩

theorem done (value : α) : Prompt p (pure value : Parse α) finish ts where
  found run := by
    obtain ⟨rfl, rfl⟩ := pure_ok run
    exact ⟨[], rfl, fun other _ => rfl⟩
  stopped run := by simp at run

/-- A step that goes on behind these tokens like another one, as long as the next token is the
same. -/
theorem behind (before : List Token) {step after : Parse α}
    (same : ∀ us, us.head? = ts.head? → step finish (before ++ us) = after finish us)
    (prompt : Prompt (fun us => p (before ++ us)) after finish ts) :
    Prompt p step finish (before ++ ts) where
  found run := by
    rw [same ts rfl] at run
    obtain ⟨used, rfl, settled⟩ := prompt.found run
    refine ⟨before ++ used, by simp, fun other next => ?_⟩
    rw [List.append_assoc, same _ (head_append next)]
    exact settled other next
  stopped run := by
    rw [same ts rfl] at run
    rcases prompt.stopped run with deep | ⟨seen, ahead, rfl, stops⟩
    · exact .inl deep
    · refine .inr ⟨before ++ seen, ahead, by simp, stops.later fun other next => ?_⟩
      rw [List.append_assoc, same _ (head_append next)]
      exact stops.settled other next

theorem known (before : List Token) {step after : Parse α}
    (same : ∀ us, step finish (before ++ us) = after finish us)
    (prompt : Prompt (fun us => p (before ++ us)) after finish ts) :
    Prompt p step finish (before ++ ts) := behind before (fun us _ => same us) prompt

theorem of_head {step after : Parse α}
    (same : ∀ us, us.head? = ts.head? → step finish us = after finish us)
    (prompt : Prompt p after finish ts) : Prompt p step finish ts := behind [] same prompt

theorem of_first {step after : Parse α} {t : Token} {rest : List Token}
    (same : ∀ us, step finish (t :: us) = after finish (t :: us))
    (prompt : Prompt p after finish (t :: rest)) : Prompt p step finish (t :: rest) := by
  refine of_head (fun us head => ?_) prompt
  obtain ⟨more, rfl⟩ := List.head?_eq_some_iff.mp head
  exact same more

/-- A step that goes on with what it sees of the next token. -/
theorem look {first : Parse α} {next : α → Parse β} {value : α}
    (sees : ∀ us, us.head? = ts.head? → first finish us = .ok value us)
    (prompt : Prompt p (next value) finish ts) : Prompt p (first >>= next) finish ts := by
  refine of_head (fun us head => ?_) prompt
  rw [bind_run, sees us head]

theorem nextIs {kind : TokenKind} {next : Bool → Parse β}
    (yes : ∀ t rest, ts = t :: rest → t.kind = kind → Prompt p (next true) finish ts)
    (no : HeadKind (· ≠ kind) ts → Prompt p (next false) finish ts) :
    Prompt p (nextIs kind >>= next) finish ts := by
  have sees : ∀ us : List Token, us.head? = ts.head? →
      Parse.nextIs kind finish us = .ok (startsWith kind ts) us := by
    intro us head
    rw [nextIs_run, startsWith, head, startsWith]
  apply look sees
  cases head : startsWith kind ts with
  | true =>
    obtain ⟨t, rest, split, same⟩ := startsWith_eq_true_iff.mp head
    exact yes t rest split same
  | false => exact no (startsWith_eq_false_iff.mp head)

theorem take {kinds : List TokenKind} {next : Token → Parse β} {t : Token} {rest : List Token}
    (expected : t.kind ∈ kinds)
    (prompt : Prompt (fun us => p (t :: us)) (next t) finish rest) :
    Prompt p (consume kinds >>= next) finish (t :: rest) := by
  refine known [t] (fun us => ?_) prompt
  rw [List.singleton_append, bind_run, consume_run expected]

/-- A step that refuses the token behind these. -/
theorem refuse (seen : List Token) {step : Parse α} (failure : Failure)
    (settled : ∀ us, us.head? = ts.head? → ∃ left, step finish (seen ++ us) = .failed failure left)
    (points : failure.cause.pointsAt finish ts)
    (unasked : HeadKind (· ∉ failure.cause.asksFor) ts) (begins : Begins p seen)
    (asked : ∀ t : Token, t.kind ∈ failure.cause.asksFor → Begins p (seen ++ [t])) :
    Prompt p step finish (seen ++ ts) where
  found run := by
    obtain ⟨left, failed⟩ := settled ts rfl
    rw [failed] at run
    cases run
  stopped run := by
    obtain ⟨left, failed⟩ := settled ts rfl
    rw [failed] at run
    cases run
    exact .inr ⟨seen, ts, rfl, points, unasked, begins, asked, settled⟩

/-- Where the first step stops, its phrase is one that the whole goes on with. Where it does not,
the next step is prompt behind what the first one has read. -/
theorem bind {first : Parse α} {next : α → Parse β} (prompt : Prompt p first finish ts)
    (grows : ∀ us, p us → Begins q us)
    (after : ∀ value used rest, ts = used ++ rest → first finish ts = .ok value rest →
      Prompt (fun us => q (used ++ us)) (next value) finish rest) :
    Prompt q (first >>= next) finish ts := by
  cases run : first finish ts with
  | ok value rest =>
    obtain ⟨used, split, settled⟩ := prompt.found run
    have later := after value used rest split run
    rw [split]
    apply behind used _ later
    intro us head
    rw [bind_run, settled us head]
  | failed failure left =>
    constructor
    · intro value rest whole
      rw [bind_run, run] at whole
      cases whole
    · intro failure left whole
      rw [bind_run, run] at whole
      cases whole
      rcases prompt.stopped run with deep | ⟨seen, ahead, split, stops⟩
      · exact .inl deep
      · refine .inr ⟨seen, ahead, split, { stops.mono grows with settled := fun other same => ?_ }⟩
        obtain ⟨left, failed⟩ := stops.settled other same
        exact ⟨left, by rw [bind_run, failed]⟩

/-- A step whose value is only put into another one. -/
theorem last {first : Parse α} (prompt : Prompt p first finish ts) (make : α → β) :
    Prompt p (do let value ← first; pure (make value) : Parse β) finish ts :=
  prompt.bind (fun _ => .whole) fun value _ _ _ _ => .done (make value)

theorem consume {kind : TokenKind} {next : Token → Parse β}
    (grows : ∀ t : Token, t.kind = kind → Begins p [t])
    (after : ∀ t rest, ts = t :: rest → t.kind = kind →
      Prompt (fun us => p (t :: us)) (next t) finish rest) :
    Prompt p (consume [kind] >>= next) finish ts := by
  have begins : Begins p [] := by
    obtain ⟨more, whole⟩ := grows (.sample kind) rfl
    exact ⟨_, whole⟩
  have asked : ∀ t : Token, t.kind ∈ [kind] → Begins p [t] :=
    fun t asks => grows t (List.mem_singleton.mp asks)
  cases ts with
  | nil =>
    refine refuse [] ⟨.unexpectedEnd finish [kind], 0⟩ ?_ ⟨rfl, rfl⟩ (headKind_nil _)
      begins asked
    intro us head
    rw [List.head?_nil, List.head?_eq_none_iff] at head
    exact ⟨[], by simp [head, Parse.consume]⟩
  | cons t rest =>
    by_cases expected : t.kind = kind
    · exact take (List.mem_singleton.mpr expected) (after t rest rfl expected)
    · have refused : t.kind ∉ [kind] := by simpa using expected
      refine refuse [] ⟨.unexpectedToken t [kind], 0⟩ ?_ rfl (headKind_cons.mpr refused)
        begins asked
      intro us head
      obtain ⟨more, rfl⟩ := List.head?_eq_some_iff.mp head
      exact ⟨t :: more, by simp [Parse.consume, expected]⟩

/-- A phrase up to its closing bracket, and what comes after that. -/
theorem closed {inside : Parse α} {close : TokenKind} {next : α → Parse β}
    (prompt : Prompt p inside finish ts)
    (phrase : ∀ {value used rest}, ts = used ++ rest → inside finish ts = .ok value rest → p used)
    (grows : ∀ (us : List Token) (c : Token), p us → c.kind = close → Begins q (us ++ [c]))
    (after : ∀ value (us : List Token) (c : Token) rest, p us → c.kind = close →
      Prompt (fun vs => q (us ++ c :: vs)) (next value) finish rest) :
    Prompt q (do let value ← inside; let _ ← Parse.consume [close]; next value) finish ts := by
  apply prompt.bind
  · intro us whole
    exact (grows us (.sample close) whole rfl).before
  · intro value used rest split run
    apply consume
    · intro c closes
      obtain ⟨more, whole⟩ := grows used c (phrase split run) closes
      exact ⟨more, by simpa using whole⟩
    · intro c rest _ closes
      exact after value used c rest (phrase split run) closes

theorem tooDeep : Prompt p (tooDeep : Parse α) finish ts where
  found run := by simp [Parse.tooDeep] at run
  stopped run := by
    simp only [Parse.tooDeep, bind_run, here_run, fail_run, Reply.failed.injEq] at run
    exact .inl (run.1 ▸ rfl)

theorem deepen {step : Parse α} (prompt : Prompt p step finish ts) :
    Prompt p (deepen step) finish ts where
  found run := by
    obtain ⟨used, split, settled⟩ := prompt.found (deepen_ok_iff.mp run)
    exact ⟨used, split, fun other same => deepen_ok_iff.mpr (settled other same)⟩
  stopped run := by
    obtain ⟨inner, failed, rfl⟩ := deepen_failed_iff.mp run
    rcases prompt.stopped failed with deep | ⟨seen, ahead, split, stops⟩
    · exact .inl deep
    · refine .inr ⟨seen, ahead, split, stops.points, stops.unasked, stops.begins, stops.asked, ?_⟩
      intro other same
      obtain ⟨left, again⟩ := stops.settled other same
      exact ⟨left, deepen_failed_iff.mpr ⟨inner, again, rfl⟩⟩

end Prompt
end ShiFormat
