import ShiFormat.Proofs.Errors.Statement
import ShiFormat.Proofs.Lexing.Comments
import ShiFormat.Proofs.Parsing.Acceptance

/-!
A syntax error is reported at the first token with which the tokens before it begin no file. The
nesting limit plays no part in this: a file may nest as deep as it likes.
-/
namespace ShiFormat
open Grammar Parse

section
variable {finish : Location} {failure : Failure} {seen ahead : List Token}

/-- What the parser refuses is no file, and nor is anything that agrees with it up to the token
that is refused. A file that nests too deep is refused for its nesting only. -/
theorem Stops.not_file {n : Nat} {other : List Token}
    (stops : Stops (Phrase Statements) (file n) finish failure seen ahead)
    (shallow : failure.cause.isNesting = false) (same : other.head? = ahead.head?) :
    ¬ Phrase Statements (seen ++ other) := by
  rintro ⟨d, body, derived⟩
  obtain ⟨left, refused⟩ := stops.settled other same
  by_cases within : d ≤ n
  · have accepted := (derived.leads_file n finish).same within
    rw [refused] at accepted
    cases accepted
  · obtain ⟨location, levels, rest, deep⟩ := (derived.leads_file n finish).refused within
    rw [refused] at deep
    cases deep
    cases shallow

theorem Stops.not_begins {n : Nat} {t : Token}
    (stops : Stops (Phrase Statements) (file n) finish failure seen ahead)
    (shallow : failure.cause.isNesting = false) (next : ahead.head? = some t) :
    ¬ Begins (Phrase Statements) (seen ++ [t]) := by
  rintro ⟨more, whole⟩
  rw [List.append_assoc, List.singleton_append] at whole
  refine stops.not_file shallow ?_ whole
  rw [List.head?_cons, next]

end

/-- The place of the token of this index, or of the end of the input after the last one. -/
def placeOf (finish : Location) (ts : List Token) (i : Nat) : Location :=
  (ts[i]?.map Token.location).getD finish

theorem getElem?_places {finish : Location} {ts : List Token} {i : Nat} (bound : i ≤ ts.length) :
    (ts.map Token.location ++ [finish])[i]? = some (placeOf finish ts i) := by
  unfold placeOf
  by_cases within : i < ts.length
  · rw [List.getElem?_append_left (by simpa using within), List.getElem?_map,
      List.getElem?_eq_getElem within]
    rfl
  · obtain rfl := Nat.le_antisymm bound (Nat.le_of_not_lt within)
    simp

theorem SourceError.pointsAt_drop {finish : Location} {ts : List Token} {i : Nat}
    {error : SourceError} (points : error.pointsAt finish (ts.drop i)) :
    error.location = placeOf finish ts i := by
  rw [placeOf, ← List.head?_drop]
  cases error with
  | unexpectedSymbol symbol location expected => cases points
  | nestingTooDeep limit location => cases points
  | unexpectedToken token expected =>
    have head : (ts.drop i).head? = some token := points
    rw [head]
    rfl
  | unexpectedEnd location expected =>
    obtain ⟨last, rfl⟩ := points
    rw [last]
    rfl
  | semantic message location => exact points

section
variable {path : Path} {text : String} {tokens : List Token}

theorem placeOf_injective (read : tokenize path text = .ok tokens) {i j : Nat}
    (bound : i ≤ (tokens.filter Parser.isKept).length)
    (bound' : j ≤ (tokens.filter Parser.isKept).length)
    (same : placeOf (Parser.finishOf tokens) (tokens.filter Parser.isKept) i =
      placeOf (Parser.finishOf tokens) (tokens.filter Parser.isKept) j) : i = j := by
  have places : ((tokens.filter Parser.isKept).map Token.location ++
      [Parser.finishOf tokens]).Nodup := by
    have all := places_nodup read
    rwa [withoutComments_eq read, List.map_append] at all
  apply (List.getElem?_inj _ places).mp
  · rw [getElem?_places bound, getElem?_places bound', same]
  · simpa using Nat.lt_succ_of_le bound

/-- A token list that is refused for anything but its nesting is refused where a phrase stops. -/
theorem stops_of_parseTokens {error : SourceError} (refused : parseTokens tokens = .error error)
    (shallow : error.isNesting = false) :
    ∃ seen ahead failure, tokens.filter Parser.isKept = seen ++ ahead ∧ failure.cause = error ∧
      Stops (Phrase Statements) (file nestingLimit) (Parser.finishOf tokens) failure seen
        ahead := by
  rw [parseTokens_eq] at refused
  cases run : file nestingLimit (Parser.finishOf tokens) (tokens.filter Parser.isKept) with
  | ok body rest =>
    rw [run] at refused
    cases refused
  | failed failure left =>
    rw [run] at refused
    obtain rfl := Except.error.inj refused
    rcases (file_prompt nestingLimit _ _).stopped run with deep | ⟨seen, ahead, split, stops⟩
    · rw [shallow] at deep
      cases deep
    · exact ⟨seen, ahead, failure, split, rfl, stops⟩

end

/-- A file that is refused for anything but its nesting is refused at the first wrong token: the
tokens before it begin a file, with it they do not, and with a token of any of the kinds that the
error asks for, of which it is none, they do again. -/
theorem error_at_first_wrong_token (path : Path) (text : String) (tokens : List Token)
    (error : SourceError) (read : tokenize path text = .ok tokens)
    (refused : parse path text = .error error) (shallow : error.isNesting = false) :
    let kept := tokens.filter Parser.isKept
    ∃ i ≤ kept.length,
      (∀ j ≤ kept.length, error.pointsAt (Parser.finishOf tokens) (kept.drop j) ↔ j = i) ∧
      Begins (Phrase Statements) (kept.take i) ∧
      (i < kept.length → ¬ Begins (Phrase Statements) (kept.take (i + 1))) ∧
      ¬ Phrase Statements kept ∧
      (∀ t ∈ kept[i]?, t.kind ∉ error.asksFor) ∧
      ∀ t : Token, t.kind ∈ error.asksFor → Begins (Phrase Statements) (kept.take i ++ [t]) := by
  intro kept
  rw [parse, read] at refused
  obtain ⟨seen, ahead, failure, split, rfl, stops⟩ := stops_of_parseTokens refused shallow
  have bound : seen.length ≤ kept.length := by simp [kept, split]
  have before : kept.take seen.length = seen := by simp [kept, split]
  have after : kept.drop seen.length = ahead := by simp [kept, split]
  have here : kept[seen.length]? = ahead.head? := by rw [← List.head?_drop, after]
  have points : failure.cause.pointsAt (Parser.finishOf tokens) (kept.drop seen.length) := by
    rw [after]
    exact stops.points
  refine ⟨seen.length, bound, fun j bound' => ?_, ?_, fun within => ?_, ?_, ?_, ?_⟩
  · constructor
    -- No other token stands where the error does.
    · intro points'
      apply placeOf_injective read bound' bound
      rw [← SourceError.pointsAt_drop points', ← SourceError.pointsAt_drop points]
    · intro same
      rw [same]
      exact points
  · rw [before]
    exact stops.begins
  · obtain ⟨t, next⟩ : ∃ t, kept[seen.length]? = some t := ⟨_, List.getElem?_eq_getElem within⟩
    rw [List.take_add_one, before, next]
    exact stops.not_begins shallow (here.symm.trans next)
  · show ¬ Phrase Statements (tokens.filter Parser.isKept)
    rw [split]
    exact stops.not_file shallow rfl
  · rw [here]
    exact stops.unasked
  · rw [before]
    exact stops.asked

/-- The text is refused at a token of this kind, and one of another kind is asked for. -/
def refusedFor (path : Path) (text : String) (found asked : TokenKind) : Bool :=
  match parse path text with
  | .error (.unexpectedToken token expected) => token.kind == found && expected == [asked]
  | _ => false

theorem error_of_refusedFor {path : Path} {text : String} {found asked : TokenKind}
    (refused : refusedFor path text found asked = true) :
    ∃ token, parse path text = .error (.unexpectedToken token [asked]) ∧ token.kind = found := by
  unfold refusedFor at refused
  split at refused
  · next token expected run =>
    simp only [Bool.and_eq_true, beq_iff_eq] at refused
    obtain ⟨kind, rfl⟩ := refused
    exact ⟨token, run, kind⟩
  · cases refused

/-- `x = f(1, ]` -/
theorem error_at_first_wrong_bracket :
    let path : Path := ⟨"BUILD.shi"⟩
    let text := "x = f(1, ]"
    ∃ tokens bracket, tokenize path text = .ok tokens ∧
      parse path text = .error (.unexpectedToken bracket [.rightParen]) ∧
      bracket.kind = .rightBracket ∧
      let kept := tokens.filter Parser.isKept
      ∃ i, kept[i]? = some bracket ∧ Begins (Phrase Statements) (kept.take i) ∧
        ¬ Begins (Phrase Statements) (kept.take (i + 1)) ∧
        ∀ t : Token, t.kind = .rightParen → Begins (Phrase Statements) (kept.take i ++ [t]) := by
  intro path text
  have legible : (tokenize path text).toOption.isSome = true := by decide +kernel
  have refused : refusedFor path text .rightBracket .rightParen = true := by decide +kernel
  obtain ⟨bracket, run, kind⟩ := error_of_refusedFor refused
  cases read : tokenize path text with
  | error cause => rw [read] at legible; cases legible
  | ok tokens =>
    obtain ⟨i, bound, points, before, wrong, _, _, asked⟩ :=
      error_at_first_wrong_token path text tokens _ read run rfl
    have here : ((tokens.filter Parser.isKept).drop i).head? = some bracket :=
      (points i bound).mpr rfl
    rw [List.head?_drop] at here
    obtain ⟨within, _⟩ := List.getElem?_eq_some_iff.mp here
    exact ⟨tokens, bracket, rfl, run, kind, i, here, before, wrong within,
      fun t kind => asked t (List.mem_singleton.mpr kind)⟩

end ShiFormat
