import ShiFormat.Proofs.Grammar

/-!
How parsing steps run on known tokens, and a relation for following them: one step on some tokens
leads to another step on fewer, or refuses to go on because the nesting is too deep.
-/
namespace ShiFormat

/-- What the first token has to do with the tokens before it, if there is a first token. -/
def HeadKind (p : TokenKind → Prop) (ts : List Token) : Prop := ∀ t ∈ ts.head?, p t.kind

theorem headKind_nil (p : TokenKind → Prop) : HeadKind p [] := by simp [HeadKind]

theorem headKind_cons {p : TokenKind → Prop} {t : Token} {ts : List Token} :
    HeadKind p (t :: ts) ↔ p t.kind := by simp [HeadKind]

theorem HeadKind.mono {p q : TokenKind → Prop} {ts : List Token} (head : HeadKind p ts)
    (weaker : ∀ kind, p kind → q kind) : HeadKind q ts :=
  fun t member => weaker t.kind (head t member)

open Grammar in
theorem startsWith_eq_false_iff {kind : TokenKind} {ts : List Token} :
    startsWith kind ts = false ↔ HeadKind (· ≠ kind) ts := by
  cases ts with
  | nil => simp [startsWith, HeadKind]
  | cons t rest => simp [startsWith, headKind_cons]

namespace Parse

variable {α β : Type} {finish : Location} {ts rest : List Token}

@[simp] theorem unread_run : unread finish ts = .ok ts ts := rfl

@[simp] theorem here_run :
    here finish ts = .ok ((ts.head?.map Token.location).getD finish) ts := rfl

@[simp] theorem kindAt_run (ahead : Nat) :
    kindAt ahead finish ts = .ok (ts[ahead]?.map Token.kind) ts := rfl

@[simp] theorem nextIs_run (kind : TokenKind) :
    nextIs kind finish ts = .ok (Grammar.startsWith kind ts) ts := rfl

@[simp] theorem fail_run (cause : SourceError) :
    (fail cause : Parse α) finish ts = .failed ⟨cause, 0⟩ ts := rfl

theorem consume_run {kinds : List TokenKind} {t : Token} (expected : t.kind ∈ kinds) :
    consume kinds finish (t :: rest) = .ok t rest := consume_ok_iff.mpr ⟨rfl, expected⟩

theorem bind_ok_iff {first : Parse α} {next : α → Parse β} {value : β} :
    (first >>= next) finish ts = .ok value rest ↔
      ∃ a mid, first finish ts = .ok a mid ∧ next a finish mid = .ok value rest := by
  rw [bind_run]
  cases first finish ts with
  | ok a mid =>
    simp only [Reply.ok.injEq]
    exact ⟨fun run => ⟨a, mid, ⟨rfl, rfl⟩, run⟩, by rintro ⟨_, _, ⟨rfl, rfl⟩, run⟩; exact run⟩
  | failed failure left => simp

end Parse

/-- What covers some tokens has one to spend on the first of them. -/
theorem budget_cons {t : Token} {ts budget : List Token}
    (enough : (t :: ts).length ≤ budget.length) :
    ∃ b more, budget = b :: more ∧ ts.length ≤ more.length := by
  cases budget with
  | nil => simp at enough
  | cons b more => exact ⟨b, more, rfl, Nat.le_of_succ_le_succ enough⟩

/-- Refused because one more level of nesting was asked for than there may be. -/
def Reply.TooDeep {α : Type} (reply : Reply α) : Prop :=
  ∃ location openLevels left,
    reply = .failed ⟨.nestingTooDeep nestingLimit location, openLevels⟩ left

/-- The step `before` on `ts` goes on as `after` on `rest` where the nesting fits, and is refused
for its nesting where it does not. -/
structure Leads {α : Type} (finish : Location) (fits : Prop) (before : Parse α) (ts : List Token)
    (after : Parse α) (rest : List Token) : Prop where
  same : fits → before finish ts = after finish rest
  refused : ¬ fits → (before finish ts).TooDeep

namespace Leads
open Parse

variable {α β : Type} {finish : Location} {fits deeper : Prop} {ts mid rest : List Token}

theorem iff {before after : Parse α} (leads : Leads finish fits before ts after rest)
    (same : fits ↔ deeper) : Leads finish deeper before ts after rest :=
  ⟨fun fit => leads.same (same.mpr fit), fun unfit => leads.refused (unfit ∘ same.mp)⟩

theorem of_eq {before step after : Parse α} (same : before finish ts = step finish mid)
    (leads : Leads finish fits step mid after rest) : Leads finish fits before ts after rest where
  same fit := same.trans (leads.same fit)
  refused unfit := same ▸ leads.refused unfit

theorem to_eq {before step after : Parse α} (leads : Leads finish fits before ts step mid)
    (same : step finish mid = after finish rest) : Leads finish fits before ts after rest where
  same fit := (leads.same fit).trans same
  refused unfit := leads.refused unfit

theorem reads {step : Parse α} {value : α} (run : step finish ts = .ok value rest)
    (fit : fits) : Leads finish fits step ts (pure value) rest :=
  ⟨fun _ => run, fun unfit => absurd fit unfit⟩

theorem trans {first second third : Parse α} (one : Leads finish fits first ts second mid)
    (two : fits → Leads finish deeper second mid third rest) :
    Leads finish (fits ∧ deeper) first ts third rest where
  same both := (one.same both.1).trans ((two both.1).same both.2)
  refused some := by
    by_cases fit : fits
    · rw [one.same fit]
      exact (two fit).refused fun other => some ⟨fit, other⟩
    · exact one.refused fit

/-- The first of two steps goes as far as it leads. -/
theorem under {first : Parse α} {value : α} (next : α → Parse β)
    (leads : Leads finish fits first ts (pure value) mid) :
    Leads finish fits (first >>= next) ts (next value) mid where
  same fit := by rw [bind_run, leads.same fit, pure_run]
  refused unfit := by
    obtain ⟨location, openLevels, left, reply⟩ := leads.refused unfit
    exact ⟨location, openLevels, left, by rw [bind_run, reply]⟩

theorem bind {first : Parse α} {value : α} {next : α → Parse β} {after : Parse β}
    (one : Leads finish fits first ts (pure value) mid)
    (two : fits → Leads finish deeper (next value) mid after rest) :
    Leads finish (fits ∧ deeper) (first >>= next) ts after rest := (one.under next).trans two

/-- A step that is known to succeed leads to what comes next. -/
theorem past {first : Parse α} {value : α} {next : α → Parse β} {after : Parse β}
    (done : first finish ts = .ok value mid)
    (leads : Leads finish fits (next value) mid after rest) :
    Leads finish fits (first >>= next) ts after rest where
  same fit := by rw [bind_run, done]; exact leads.same fit
  refused unfit := by rw [bind_run, done]; exact leads.refused unfit

/-- After a step that leads somewhere, the rest of the way is known to succeed. -/
theorem done {first : Parse α} {value : α} {next : α → Parse β} {after : Parse β}
    (leads : Leads finish fits first ts (pure value) mid)
    (known : next value finish mid = after finish rest) :
    Leads finish fits (first >>= next) ts after rest where
  same fit := (leads.under next).same fit |>.trans known
  refused unfit := (leads.under next).refused unfit

theorem deepen {step : Parse α} {value : α} (leads : Leads finish fits step ts (pure value) rest) :
    Leads finish fits (Parse.deepen step) ts (pure value) rest where
  same fit := deepen_ok_iff.mpr (leads.same fit)
  refused unfit := by
    obtain ⟨location, openLevels, left, reply⟩ := leads.refused unfit
    exact ⟨location, openLevels + 1, left, by rw [Parse.deepen, reply]⟩

theorem tooDeep {after : Parse α} (unfit : ¬ fits) :
    Leads finish fits Parse.tooDeep ts after rest where
  same fit := absurd fit unfit
  refused _ := ⟨_, 0, ts, rfl⟩

end Leads
end ShiFormat
