import ShiFormat.SourceError

/-!
Runs that check what they take for granted. A check that fails is a fault of the program, not an
error of its input.
-/
namespace ShiFormat

/-- What must never happen, whatever the input is. -/
inductive Fault where
  | unranked (kind : TokenKind)
  | emptyRange (range : EmptySpan)
  /-- A cut through the bytes of a character, or one that does not lie in the text. -/
  | offBoundary
  | unreachable
  | underflow
  | overflow
  /-- More spaces at once than padding can have. -/
  | padding
  | assertion
  /-- A repetition or a recursion that does not end. -/
  | endless
  deriving Repr

/-- Why a run stops before its end. -/
inductive Halt where
  | refused (error : SourceError)
  | fault (fault : Fault)

abbrev Checked (α : Type) : Type := Except Halt α

/-- Lines and columns are counted in words of 32 bits, which are less than this. -/
def wordLimit : Nat := 0x100000000

namespace Checked

def fault {α : Type} (f : Fault) : Checked α := .error (.fault f)

def refuse {α : Type} (error : SourceError) : Checked α := .error (.refused error)

def ensure (holds : Bool) : Checked Unit := if holds then .ok () else fault .assertion

def addWord (a b : Nat) : Checked Nat := if a + b < wordLimit then .ok (a + b) else fault .overflow

def subtract (a b : Nat) : Checked Nat := if b ≤ a then .ok (a - b) else fault .underflow

@[simp] theorem ok_bind {α β : Type} (value : α) (next : α → Checked β) :
    ((.ok value : Checked α) >>= next) = next value := rfl

theorem bind_ok_iff {α β : Type} {first : Checked α} {next : α → Checked β} {value : β} :
    first >>= next = .ok value ↔ ∃ middle, first = .ok middle ∧ next middle = .ok value := by
  cases first with
  | error halt => simp [bind, Except.bind]
  | ok middle => simp [bind, Except.bind]

theorem ensure_ok {holds : Bool} (sure : holds = true) : ensure holds = .ok () := if_pos sure

theorem ensure_ok_iff {holds : Bool} : ensure holds = .ok () ↔ holds = true := by
  cases holds <;> simp [ensure, fault]

theorem addWord_ok_iff {a b n : Nat} : addWord a b = .ok n ↔ a + b < wordLimit ∧ n = a + b := by
  by_cases fits : a + b < wordLimit
  · simp [addWord, fits, eq_comm]
  · simp [addWord, fits, fault]

theorem addWord_ok {a b : Nat} (fits : a + b < wordLimit) : addWord a b = .ok (a + b) := if_pos fits

theorem subtract_ok {a b : Nat} (enough : b ≤ a) : subtract a b = .ok (a - b) := if_pos enough

end Checked
end ShiFormat
