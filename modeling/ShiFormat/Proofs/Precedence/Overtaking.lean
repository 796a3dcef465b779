import ShiFormat.Proofs.Grammar

/-!
Where operators overtake: after a negated operand the grammar bounds the next operator no more, so
one that binds tighter than the operator before the negation still takes that whole operation as
its left operand. This is seen on the tokens alone.
-/
namespace ShiFormat.Grammar

/-- The precedence that an operator after the operand must not exceed, if the operand is negated:
the one of the operator before it. -/
def guardAfter (precedence : Nat) (operand : List Token) : Option Nat :=
  if startsWith .bang operand then some precedence else none

/-- An operator of this precedence overtakes the operation that the guard stands for. -/
def passes (guard : Option Nat) (precedence : Nat) : Bool := guard.any fun g => g < precedence

/-- Some operator overtakes. The guard is for the operand that is being read; the guards of the
operands around it, one for each open bracket, are kept until the bracket closes. -/
def overtakes : Option Nat → List (Option Nat) → List Token → Bool
  | _, _, [] => false
  | guard, outer, t :: rest =>
    match t.kind with
    | .leftParen | .leftBracket => overtakes none (guard :: outer) rest
    | .rightParen | .rightBracket => overtakes (outer.head?.getD none) outer.tail rest
    | .comma | .equal | .plusEquals | .minusEquals => overtakes none outer rest
    | kind =>
      match kind.binaryPrecedence? with
      | some p => passes guard p || overtakes (guardAfter p rest) outer rest
      | none => overtakes guard outer rest

/-- The tokens are read with this finding, and they take one guard to another. -/
def Scanned (ts : List Token) (found : Bool) (before after : Option Nat) : Prop :=
  ∀ outer rest, overtakes before outer (ts ++ rest) = (found || overtakes after outer rest)

namespace Scanned

variable {ts us : List Token} {t opening closing : Token} {found other : Bool}
  {guard before middle after : Option Nat}

theorem nil : Scanned [] false guard guard := by
  intro outer rest
  simp

theorem append (first : Scanned ts found before middle) (second : Scanned us other middle after) :
    Scanned (ts ++ us) (found || other) before after := by
  intro outer rest
  rw [List.append_assoc, first, second, Bool.or_assoc]

/-- Tokens of these kinds neither compare nor change the guard. -/
def quiet : TokenKind → Bool
  | .identifier | .integer | .string | .trueWord | .falseWord | .dot | .bang | .ifWord | .elseWord
  | .leftBrace | .rightBrace => true
  | _ => false

theorem skip (still : quiet t.kind) (later : Scanned ts found before after) :
    Scanned (t :: ts) found before after := by
  intro outer rest
  rw [List.cons_append, ← later outer rest]
  cases kind : t.kind <;>
    simp_all [overtakes, quiet, TokenKind.binaryPrecedence?]

theorem reset (separates : t.kind = .comma ∨ t.kind ∈ TokenKind.assignmentOperators)
    (later : Scanned ts found none after) : Scanned (t :: ts) found guard after := by
  intro outer rest
  rw [List.cons_append, ← later outer rest]
  rw [TokenKind.mem_assignmentOperators] at separates
  rcases separates with kind | kind | kind | kind <;> simp [overtakes, kind]

theorem brackets (opens : opening.kind = .leftParen ∨ opening.kind = .leftBracket)
    (closes : closing.kind = .rightParen ∨ closing.kind = .rightBracket)
    (inside : Scanned ts found none after) :
    Scanned (opening :: (ts ++ [closing])) found guard guard := by
  intro outer rest
  have enter (more : List Token) :
      overtakes guard outer (opening :: more) = overtakes none (guard :: outer) more := by
    rcases opens with kind | kind <;> simp [overtakes, kind]
  have leave (more : List Token) :
      overtakes after (guard :: outer) (closing :: more) = overtakes guard outer more := by
    rcases closes with kind | kind <;> simp [overtakes, kind]
  rw [List.cons_append, enter, List.append_assoc, inside, List.singleton_append, leave]

theorem operator {p : Nat} (precedence : t.kind.binaryPrecedence? = some p) (some_left : us ≠ [])
    (operand : Scanned us found (guardAfter p us) after) :
    Scanned (t :: us) (passes guard p || found) guard after := by
  intro outer rest
  have start : guardAfter p (us ++ rest) = guardAfter p us := by
    cases us with
    | nil => exact absurd rfl some_left
    | cons u us => rfl
  have step : overtakes guard outer (t :: (us ++ rest)) =
      (passes guard p || overtakes (guardAfter p (us ++ rest)) outer (us ++ rest)) := by
    cases kind : t.kind <;>
      simp_all [overtakes, TokenKind.binaryPrecedence?]
  rw [List.cons_append, step, start, operand, Bool.or_assoc]

end Scanned
end ShiFormat.Grammar
