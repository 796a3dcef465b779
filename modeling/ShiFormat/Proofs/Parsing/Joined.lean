import ShiFormat.Proofs.Canonical.Equivalence
import ShiFormat.Proofs.Canonical.Parsed
import ShiFormat.Proofs.Canonical.Whole
import ShiFormat.Proofs.Lexing.Comments
import ShiFormat.Proofs.Parsing.Moved

/-!
Two files with a newline between them. No token goes across the newline and no statement ends later
for what follows it, so the joined file has the statements of the first one and, further down,
those of the second one.
-/
namespace ShiFormat
open Lexeme

/-- The place `n` lines further down, in the same column. -/
def Location.lowered (n : Nat) (a : Location) : Location := { a with line := a.line + n }

abbrev Token.lowered (n : Nat) (t : Token) : Token := t.moved (Location.lowered n)

theorem columnAfter_below (front before : List Char) :
    columnAfter (front ++ '\n' :: before) = columnAfter before := by
  have cut : ((front ++ '\n' :: before).reverse.takeWhile (· != '\n')) =
      before.reverse.takeWhile (· != '\n') := by
    rw [List.reverse_append, List.reverse_cons, List.append_assoc, List.takeWhile_append]
    split
    · next all =>
      simpa using ((List.takeWhile_prefix _).eq_of_length all).symm
    · rfl
  rw [columnAfter, cut, columnAfter]

/-- Behind a text and a newline, each place is as many lines further down. -/
theorem placeAfter_below (path : Path) (front before : List Char) :
    placeAfter path (front ++ '\n' :: before) =
      (placeAfter path before).lowered (front.count '\n' + 1) := by
  have line : lineAfter (front ++ '\n' :: before) = lineAfter before + (front.count '\n' + 1) := by
    simp only [lineAfter, List.count_append, List.count_cons_self]
    omega
  simp only [placeAfter, Location.lowered, line, columnAfter_below]

theorem Lexeme.Begins.longest {kind : TokenKind} {value ahead : List Char}
    (h : Lexeme.Begins kind value ahead) : Longest kind value (value ++ ahead) := by
  obtain ⟨value', ahead', split, length, longest⟩ := longest_of_first h.first
  obtain ⟨rfl, rfl⟩ := List.append_inj split length
  exact longest

theorem Lexeme.ends_newline (kind : TokenKind) (text : List Char) : Ends kind ('\n' :: text) := by
  intro c head
  cases Option.some.inj head
  cases kind <;> rfl

section
variable {path : Path} {front back before rest : List Char} {tokens : List Token}

/-- A newline and whatever comes after it change no token in front of them. -/
theorem Reached.followed (h : Reached path front tokens before rest) (back : List Char) :
    Reached path (front ++ '\n' :: back) tokens before (rest ++ '\n' :: back) := by
  induction h with
  | start => exact .start
  | @token tokens before gap value rest kind _ blank longest ih =>
    have ends : Ends kind (rest ++ '\n' :: back) := by
      cases rest with
      | nil => exact ends_newline kind back
      | cons x rest => exact longest.begins.ends
    have still := (longest.begins.before ends).longest
    rw [List.append_assoc, List.append_assoc] at ih
    exact ih.token blank still

/-- Where the first text has been cut to its end, the second one is cut as it is by itself. What
has been passed may end before the newline, as long as no token of the second text is cut off. -/
theorem Reached.joined {tokens' : List Token} {passed gap : List Char}
    (first : Reached path front tokens passed gap) (blank : ∀ x ∈ gap, Cursor.isBlank x)
    (second : Reached path back tokens' before rest) :
    ∃ seen left, Reached path (front ++ '\n' :: back)
        (tokens ++ tokens'.map (Token.lowered (front.count '\n' + 1))) seen (left ++ rest) ∧
      (∀ x ∈ left, Cursor.isBlank x) ∧ seen ++ left = front ++ '\n' :: before := by
  induction second with
  | start =>
    refine ⟨passed, gap ++ ['\n'], ?_, ?_, ?_⟩
    · simpa using first.followed back
    · rw [List.forall_mem_append, List.forall_mem_singleton]
      exact ⟨blank, rfl⟩
    · simp [first.split]
  | @token tokens' before gap' value rest kind _ blank' longest ih =>
    obtain ⟨seen, left, reached, blank_left, split⟩ := ih
    rw [← List.append_assoc] at reached
    have more := reached.token (List.forall_mem_append.mpr ⟨blank_left, blank'⟩) longest
    have place : placeAfter path (seen ++ (left ++ gap')) =
        (placeAfter path (before ++ gap')).lowered (front.count '\n' + 1) := by
      rw [← placeAfter_below, ← List.append_assoc, split, List.append_assoc, List.cons_append]
    refine ⟨seen ++ (left ++ gap') ++ value, [], ?_, List.forall_mem_nil _, ?_⟩
    · simpa [place, Token.moved] using more
    · rw [List.append_nil, ← List.append_assoc seen, split]
      simp

end

/-- Statements may follow statements, and open no more levels than they do by themselves. -/
theorem Grammar.Statements.append {d e : Nat} {ts us : List Token} {body other : List Node} :
    Statements d ts body → Statements e us other →
      Statements (max d e) (ts ++ us) (body ++ other)
  | .nil, second => by simpa using second
  | .cons first others, second => by
    rw [Nat.max_assoc, List.append_assoc, List.cons_append]
    exact .cons first (others.append second)

end ShiFormat
