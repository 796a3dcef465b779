import ShiFormat.Parser
import ShiFormat.Proofs.Lexing.Lossless

/-!
The tokens of a text besides its comments: the ones that the parser keeps, and then the end of the
input.
-/
namespace ShiFormat

def withoutComments (ts : List Token) : List Token := ts.filter fun t => t.kind != .comment

theorem withoutComments_append (ts us : List Token) :
    withoutComments (ts ++ us) = withoutComments ts ++ withoutComments us := List.filter_append ..

theorem withoutComments_unplaced (ts : List Token) :
    (withoutComments ts).map Token.unplaced = withoutComments (ts.map Token.unplaced) := by
  rw [withoutComments, withoutComments, List.filter_map]
  rfl

theorem Reached.not_end {path : Path} {text before rest : List Char} {tokens : List Token}
    (h : Reached path text tokens before rest) : ∀ t ∈ tokens, t.isEndOfInput = false := by
  obtain ⟨parts, rfl, _, solid, _⟩ := h.parts
  intro t member
  obtain ⟨part, inside, rfl⟩ := List.mem_map.mp member
  exact (solid part inside).within

theorem finishOf_end (ts : List Token) (finish : Location) :
    Parser.finishOf (ts ++ [Token.endOfInput finish]) = finish := by
  simp [Parser.finishOf, Token.endOfInput, Token.isEndOfInput]

theorem kept_before_end (ts : List Token) (finish : Location) :
    (ts ++ [Token.endOfInput finish]).filter Parser.isKept = ts.filter Parser.isKept := by
  simp [Parser.isKept, Token.endOfInput]

/-- Only the last token of a text is the end of its input. -/
theorem withoutComments_eq {path : Path} {text : String} {tokens : List Token}
    (read : tokenize path text = .ok tokens) :
    withoutComments tokens =
      tokens.filter Parser.isKept ++ [Token.endOfInput (Parser.finishOf tokens)] := by
  obtain ⟨cut, ⟨before, gap, reached, _⟩, rfl⟩ := cutUp_of_tokenize read
  have kept : cut.filter Parser.isKept = withoutComments cut := by
    apply List.filter_congr
    intro t member
    have inside : (t.kind == TokenKind.endOfInput) = false := reached.not_end t member
    rw [Parser.isKept, bne, bne, inside, Bool.not_false, Bool.and_true]
  rw [finishOf_end, kept_before_end, kept]
  simp [withoutComments, Token.endOfInput]

theorem Token.location_ne {t u : Token} (before : t.span.stop ≤ u.span.start) :
    t.location ≠ u.location := by
  intro same
  have stop : t.location.shifted (max t.value.length 1) ≤ u.location := before
  rw [← same] at stop
  exact Location.shifted_not_le t.location (by omega) stop

/-- No two tokens of a text stand in one place, nor does any where the text ends. -/
theorem places_nodup {path : Path} {text : String} {tokens : List Token}
    (read : tokenize path text = .ok tokens) :
    ((withoutComments tokens).map Token.location).Nodup := by
  have part : (withoutComments tokens).Sublist tokens := List.filter_sublist
  have apart := (ordered_of_tokenize read).sublist part
  exact (apart.imp Token.location_ne).map Token.location fun _ _ => id

end ShiFormat
