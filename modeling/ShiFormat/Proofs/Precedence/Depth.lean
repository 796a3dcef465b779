import ShiFormat.Proofs.Canonical.Parsed
import ShiFormat.Proofs.Canonical.RoundTrip
import ShiFormat.Proofs.Precedence.Binding

/-!
How deep the canonical text of an accepted text nests. The parentheses that the canonical text adds
cost levels, and those are always there unless an operator overtakes.
-/
namespace ShiFormat
open Grammar

/-- The tree in this many brackets. -/
def Node.bracketed (e : Node) : Nat → Node
  | 0 => e
  | n + 1 => .expressionList [e.bracketed n]

/-- The tokens in this many brackets. -/
def inBrackets (n : Nat) (ts : List Token) : List Token :=
  List.replicate n (.fixed .leftBracket) ++ (ts ++ List.replicate n (.fixed .rightBracket))

theorem inBrackets_succ (n : Nat) (ts : List Token) :
    inBrackets (n + 1) ts =
      .fixed .leftBracket :: (inBrackets n ts ++ [.fixed .rightBracket]) := by
  simp [inBrackets, List.replicate_succ, ← List.replicate_succ']

/-- Each bracket costs one level. -/
theorem Grammar.Expression.bracketed {d : Nat} {ts : List Token} {e : Node}
    (h : Expression 0 d ts e) (n : Nat) :
    Expression 0 (d + n) (inBrackets n ts) (e.bracketed n) := by
  induction n with
  | zero => simpa [inBrackets, Node.bracketed] using h
  | succ n ih =>
    rw [inBrackets_succ]
    exact .chain (.primary (.bracketed rfl (.last ih) rfl))

theorem Lexes.fixed {kind : TokenKind} {text : List Char} {us : List Token}
    (legible : (Token.fixed kind).legible) (closed : ∀ c, Lexeme.goesOn kind c = false)
    (h : Lexes text us) : Lexes ((Token.fixed kind).value.toList ++ text) (.fixed kind :: us) :=
  h.token legible fun c _ => closed c

theorem Lexes.replicate {kind : TokenKind} {c : Char} {text : List Char} {us : List Token}
    (spelled : (Token.fixed kind).value.toList = [c]) (legible : (Token.fixed kind).legible)
    (closed : ∀ c, Lexeme.goesOn kind c = false) (h : Lexes text us) (n : Nat) :
    Lexes (List.replicate n c ++ text) (List.replicate n (.fixed kind) ++ us) := by
  induction n with
  | zero => exact h
  | succ n ih =>
    have read := Lexes.fixed legible closed ih
    rw [spelled] at read
    simpa [List.replicate_succ] using read

/-- A name that stands nowhere. -/
def Token.named (value : String) : Token := ⟨.identifier, value, .unknown⟩

end ShiFormat
