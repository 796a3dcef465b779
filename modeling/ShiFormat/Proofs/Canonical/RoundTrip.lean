import ShiFormat.Proofs.Parsing.Acceptance
import ShiFormat.Proofs.Parsing.Kept
import ShiFormat.Proofs.Places
import ShiFormat.Proofs.Canonical.Equivalence
import ShiFormat.Proofs.Canonical.Text
import ShiFormat.Proofs.Canonical.Whole

/-!
The canonical text of a well-formed tree is read back as an equivalent tree, unless it nests too
deep, and the tree that was read has the same canonical text.
-/
namespace ShiFormat
open Grammar

theorem Node.wellFormed_iff {t : Node} :
    t.wellFormed ↔ ∃ body, t = .statementList body ∧ allStatements body := by
  cases t with
  | statementList body => simp [wellFormed]
  | _ => simp [wellFormed]

/-- A text that is read as the tokens of a derivation, places aside, derives the same tree. -/
theorem derives_of_lexes {d : Nat} {text : List Char} {ts : List Token} {body : List Node}
    (read : Lexes text ts) (derived : Statements d ts body) (path : Path) :
    ∃ tokens again, tokenize path (String.ofList text) = .ok tokens ∧
      Statements d (tokens.filter Parser.isKept) again ∧
      mapTokensOfAll Token.unplaced again = body := by
  obtain ⟨placed, finish, run, values⟩ := read path (Cursor.atStart text) rfl
  obtain ⟨again, derived, same⟩ := derived.placed placed values
  refine ⟨placed ++ [.endOfInput finish], again, ?_, ?_, same⟩
  · rw [tokenize, String.toList_ofList]
    exact run
  · rw [filter_before_end derived.kept rfl]
    exact derived

/-- A text that is read as the tokens of a derivation is accepted with its tree if that nests within
the limit. -/
theorem accepted_of_lexes {d : Nat} {text : List Char} {ts : List Token} {body : List Node}
    (read : Lexes text ts) (derived : Statements d ts body) (within : d ≤ nestingLimit)
    (path : Path) :
    ∃ tree, parse path (String.ofList text) = .ok tree ∧
      tree.mapTokens Token.unplaced = .statementList body := by
  obtain ⟨tokens, again, run, derived, same⟩ := derives_of_lexes read derived path
  refine ⟨.statementList again, ?_, ?_⟩
  · rw [parse, run]
    exact parseTokens_of_derived derived within
  · rw [Node.mapTokens, same]

/-- The canonical text reads as the tokens of the layout. -/
theorem Node.format_lexes {t : Node} (formed : t.wellFormed) (width : Nat) :
    Lexes (t.format width).text.toList (Piece.tokens t.layout) := by
  obtain ⟨body, rfl, formed⟩ := wellFormed_iff.mp formed
  have whole := statements_whole 0 body formed
  have written : (Node.statementList body |>.format width).text =
      String.ofList (Piece.written width (statementsLayout 0 body)) := by
    simp only [Node.format, layout, Rendering.ofLayout, Piece.visible_of_whole whole,
      Piece.written]
  have readable : Piece.Readable width (statementsLayout 0 body) [] :=
    statements_readable 0 body formed []
  have read := readable [] .nil
  rw [List.append_nil, List.append_nil] at read
  rw [written, String.toList_ofList]
  exact read

/-- The canonical text is read as tokens that derive an equivalent file, with as many levels as the
tree asks for. -/
theorem Node.format_derives {t : Node} (formed : t.wellFormed) (width : Nat) (path : Path) :
    ∃ tokens body, tokenize path (t.format width).text = .ok tokens ∧
      Statements t.levels (tokens.filter Parser.isKept) body ∧
      (Node.statementList body).mapTokens Token.unplaced = t.mapTokens Token.unplaced := by
  have read := format_lexes formed width
  obtain ⟨body, rfl, formed⟩ := wellFormed_iff.mp formed
  obtain ⟨tokens, again, run, derived, same⟩ :=
    derives_of_lexes read (statements_derive 0 body formed) path
  rw [String.ofList_toList] at run
  refine ⟨tokens, again, run, derived, ?_⟩
  simp only [mapTokens, same]

theorem Node.parse_format {t : Node} (formed : t.wellFormed) (width : Nat) (path : Path)
    (within : t.levels ≤ nestingLimit) :
    ∃ again, parse path (t.format width).text = .ok again ∧
      again.mapTokens Token.unplaced = t.mapTokens Token.unplaced := by
  obtain ⟨tokens, body, read, derived, same⟩ := format_derives formed width path
  refine ⟨.statementList body, ?_, same⟩
  rw [parse, read]
  exact parseTokens_of_derived derived within

theorem Node.parse_format_too_deep {t : Node} (formed : t.wellFormed) (width : Nat) (path : Path)
    (deep : nestingLimit < t.levels) :
    ∃ location, parse path (t.format width).text =
      .error (.nestingTooDeep nestingLimit location) := by
  obtain ⟨tokens, body, read, derived, _⟩ := format_derives formed width path
  obtain ⟨location, refused⟩ := parseTokens_too_deep derived deep
  exact ⟨location, by rw [parse, read]; exact refused⟩

end ShiFormat
