import ShiFormat.Proofs.Canonical.Equivalence
import ShiFormat.Proofs.Lexing.Insertion
import ShiFormat.Proofs.Parsing.Moved

/-!
Blanks and comments do not change what a text means. Put in where no token is cut, they leave the
tree equivalent, and an error the same but for its place.
-/
namespace ShiFormat

theorem Token.moved_unplaced (move : Location → Location) (t : Token) :
    (t.moved move).unplaced = t.unplaced := rfl

/-- Tokens that stand at different places can be moved to wherever the same tokens stand. -/
theorem moved_of_places {ts us : List Token} (places : (ts.map Token.location).Nodup)
    (same : us.map Token.unplaced = ts.map Token.unplaced) :
    ∃ move, us = ts.map (Token.moved move) := by
  classical
  induction ts generalizing us with
  | nil => exact ⟨id, List.map_eq_nil_iff.mp same⟩
  | cons t ts ih =>
    obtain ⟨u, us, rfl, first, later⟩ := List.map_eq_cons_iff.mp same
    rw [List.map_cons, List.nodup_cons] at places
    obtain ⟨move, rfl⟩ := ih places.2 later
    refine ⟨fun place => if place = t.location then u.location else move place, ?_⟩
    rw [List.map_cons, List.cons.injEq]
    constructor
    · have values : u.kind = t.kind ∧ u.value = t.value := by simpa [Token.unplaced] using first
      simp [Token.moved, ← values.1, ← values.2]
    · apply List.map_congr_left
      intro s member
      have apart : s.location ≠ t.location := by
        intro there
        exact places.1 (there ▸ List.mem_map_of_mem member)
      simp [Token.moved, apart]

/-- With filler put in where no token is cut, a text has the tokens it had besides its comments, only
moved. It is accepted with an equivalent tree if it was accepted, and refused with the same error at
the moved place if it was refused. -/
theorem insertion_keeps_meaning (path : Path) (front inserted back : String)
    (tokens : List Token) (read : tokenize path (front ++ back) = .ok tokens)
    (whole : Boundary path front.toList back.toList) (filled : IsFiller inserted.toList) :
    ∃ again move, tokenize path (front ++ inserted ++ back) = .ok again ∧
      withoutComments again = (withoutComments tokens).map (Token.moved move) ∧
      (∀ tree, parse path (front ++ back) = .ok tree → ∃ other,
        parse path (front ++ inserted ++ back) = .ok other ∧ tree.equivalent other = true) ∧
      ∀ error, parse path (front ++ back) = .error error →
        parse path (front ++ inserted ++ back) = .error (error.moved move) := by
  obtain ⟨again, read', same⟩ := tokenize_filled read whole filled
  obtain ⟨move, moved⟩ := moved_of_places (places_nodup read) same
  have ends := moved
  rw [withoutComments_eq read, withoutComments_eq read', List.map_append] at ends
  obtain ⟨kept, last⟩ := List.append_inj' ends rfl
  have finish : Parser.finishOf again = move (Parser.finishOf tokens) := by
    simpa [Token.endOfInput, Token.moved] using last
  have parsed := parseTokens_moved kept finish
  rw [parse, parse, read, read']
  refine ⟨again, move, rfl, moved, fun tree accepted => ?_, parsed.2⟩
  exact ⟨_, parsed.1 tree accepted, tree.equivalent_mapTokens (Token.moved_unplaced move)⟩

/-- `x -= 1# c` before a line that begins with `+`. What is put between them begins with the rest of
the comment's line. -/
theorem insertion_keeps_meaning_behind_comment :
    let path : Path := ⟨"BUILD.shi"⟩
    let front := "x -= 1# c"
    let inserted := "\t# \"\n\r#\n"
    let back := "\n+a"
    ∃ tokens, tokenize path (front ++ back) = .ok tokens ∧
      Boundary path front.toList back.toList ∧ IsFiller inserted.toList ∧
      ∃ again move, tokenize path (front ++ inserted ++ back) = .ok again ∧
        withoutComments again = (withoutComments tokens).map (Token.moved move) ∧
        ∃ tree other, parse path (front ++ back) = .ok tree ∧
          parse path (front ++ inserted ++ back) = .ok other ∧ tree.equivalent other = true := by
  intro path front inserted back
  have nothing_cut : Reached path (front.toList ++ back.toList) [] [] _ := .start
  obtain ⟨_, _, name⟩ :=
    nothing_cut.cut .identifier "" "x" " -= 1# c\n+a" (by decide) rfl (by decide)
  obtain ⟨_, _, minus⟩ := name.cut .minusEquals " " "-=" " 1# c\n+a" (by decide) rfl (by decide)
  obtain ⟨_, _, one⟩ := minus.cut .integer " " "1" "# c\n+a" (by decide) rfl (by decide)
  obtain ⟨_, _, comment⟩ := one.cut .comment "" "# c" "\n+a" (by decide) rfl (by decide)
  have whole : Boundary path front.toList back.toList := comment.boundary
  have filled : IsFiller inserted.toList := by
    have text : inserted.toList =
      '\t' :: '#' :: ([' ', '"'] ++ '\n' :: '\r' :: '#' :: ([] ++ '\n' :: [])) := by decide
    rw [text]
    exact .blank rfl (.comment (by decide) (.blank rfl (.comment (by decide) .nil)))
  obtain ⟨tree, accepted, _⟩ := accepted_of_check path (front ++ back) (fun _ => true)
    (by decide +kernel)
  obtain ⟨tokens, read, _⟩ := read_of_parse accepted
  obtain ⟨again, move, read', moved, kept, _⟩ :=
    insertion_keeps_meaning path front inserted back tokens read whole filled
  obtain ⟨other, accepted', equivalent⟩ := kept tree accepted
  exact ⟨tokens, read, whole, filled, again, move, read', moved, tree, other, accepted, accepted',
    equivalent⟩

end ShiFormat
