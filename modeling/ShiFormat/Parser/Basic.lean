import ShiFormat.SourceError

/-!
Parsing steps. A step looks at the tokens not yet read and either yields a value or fails; both
ways it says which tokens are left. A failure also counts the nesting levels that were open when
it arose, because nothing closes them.
-/
namespace ShiFormat

/-- The deepest nesting of expressions and blocks that is accepted. -/
def nestingLimit : Nat := 128

structure Failure where
  cause : SourceError
  openLevels : Nat

inductive Reply (α : Type) where
  | ok (value : α) (rest : List Token)
  | failed (failure : Failure) (rest : List Token)

/-- A step is given the place where the input ends and the tokens not yet read. -/
def Parse (α : Type) : Type := Location → List Token → Reply α

namespace Parse

instance : Monad Parse where
  pure value := fun _ rest => .ok value rest
  bind first next := fun finish rest =>
    match first finish rest with
    | .ok value rest => next value finish rest
    | .failed failure rest => .failed failure rest

variable {α β : Type}

@[simp] theorem pure_run (value : α) (finish : Location) (rest : List Token) :
    (pure value : Parse α) finish rest = .ok value rest := rfl

@[simp] theorem bind_run (first : Parse α) (next : α → Parse β) (finish : Location)
    (rest : List Token) :
    (first >>= next) finish rest =
      match first finish rest with
      | .ok value rest => next value finish rest
      | .failed failure rest => .failed failure rest := rfl

def fail (cause : SourceError) : Parse α := fun _ rest => .failed ⟨cause, 0⟩ rest

def unread : Parse (List Token) := fun _ rest => .ok rest rest

/-- The kind of the token that lies `ahead` tokens after the next one. -/
def kindAt (ahead : Nat) : Parse (Option TokenKind) :=
  fun _ rest => .ok (rest[ahead]?.map Token.kind) rest

def nextIs (kind : TokenKind) : Parse Bool :=
  fun _ rest => .ok (rest.head?.any fun token => token.kind == kind) rest

/-- The place of the next token, or of the end of the input. -/
def here : Parse Location :=
  fun finish rest => .ok ((rest.head?.map Token.location).getD finish) rest

/-- Demands one of `kinds` for the token `ahead` tokens after the next one, and reads nothing. -/
def expectAt (ahead : Nat) (kinds : List TokenKind) : Parse Token := fun finish rest =>
  match rest[ahead]? with
  | none => .failed ⟨.unexpectedEnd finish kinds, 0⟩ rest
  | some token =>
    if token.kind ∈ kinds then .ok token rest
    else .failed ⟨.unexpectedToken token kinds, 0⟩ rest

/-- Reads the next token, which must be of one of `kinds`. -/
def consume (kinds : List TokenKind) : Parse Token := fun finish rest =>
  match rest with
  | [] => .failed ⟨.unexpectedEnd finish kinds, 0⟩ rest
  | token :: more =>
    if token.kind ∈ kinds then .ok token more
    else .failed ⟨.unexpectedToken token kinds, 0⟩ rest

/-- Runs a step one nesting level deeper. -/
def deepen (step : Parse α) : Parse α := fun finish rest =>
  match step finish rest with
  | .ok value rest => .ok value rest
  | .failed failure rest => .failed ⟨failure.cause, failure.openLevels + 1⟩ rest

/-- Refuses to open another nesting level. -/
def tooDeep : Parse α := do fail (.nestingTooDeep nestingLimit (← here))

theorem consume_ok_iff {kinds : List TokenKind} {finish : Location} {ts rest : List Token}
    {t : Token} :
    consume kinds finish ts = .ok t rest ↔ ts = t :: rest ∧ t.kind ∈ kinds := by
  cases ts with
  | nil => simp [consume]
  | cons token more =>
    by_cases h : token.kind ∈ kinds
    · simp only [consume, h, ↓reduceIte, Reply.ok.injEq, List.cons.injEq]
      constructor
      · rintro ⟨rfl, rfl⟩; exact ⟨⟨rfl, rfl⟩, h⟩
      · rintro ⟨⟨rfl, rfl⟩, _⟩; exact ⟨rfl, rfl⟩
    · simp only [consume, h, ↓reduceIte, reduceCtorEq, List.cons.injEq, false_iff]
      rintro ⟨⟨rfl, rfl⟩, k⟩; exact h k

theorem deepen_ok_iff {step : Parse α} {finish : Location} {ts rest : List Token} {value : α} :
    deepen step finish ts = .ok value rest ↔ step finish ts = .ok value rest := by
  unfold deepen
  split <;> simp_all

end Parse
end ShiFormat
