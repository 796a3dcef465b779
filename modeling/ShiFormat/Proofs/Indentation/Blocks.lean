import ShiFormat.Text

/-!
The lines of a text and the blocks around each of them, read off the text alone, and the same lines
led by spaces for these blocks.
-/
namespace ShiFormat
namespace Text

/-- The lines of a text, each of which a newline closes. What follows the last newline is none. -/
def lines (text : List Char) : List (List Char) := (pieces '\n' text).dropLast

def unlines (lines : List (List Char)) : List Char := lines.flatMap (· ++ ['\n'])

theorem unlines_cons (line : List Char) (ls : List (List Char)) :
    unlines (line :: ls) = line ++ '\n' :: unlines ls := by
  simp [unlines]

theorem pieces_line {line : List Char} (single : '\n' ∉ line) (rest : List Char) :
    pieces '\n' (line ++ '\n' :: rest) = line :: pieces '\n' rest := by
  induction line with
  | nil => simp [pieces]
  | cons c line ih =>
    rw [List.mem_cons, not_or] at single
    simp [pieces, Ne.symm single.1, ih single.2]

theorem lines_unlines {ls : List (List Char)} (single : ∀ line ∈ ls, '\n' ∉ line) :
    lines (unlines ls) = ls := by
  have split : pieces '\n' (unlines ls) = ls ++ [[]] := by
    induction ls with
    | nil => rfl
    | cons line ls ih =>
      rw [List.forall_mem_cons] at single
      rw [unlines_cons, pieces_line single.1, ih single.2, List.cons_append]
  rw [lines, split, List.dropLast_concat]

end Text

/-- What stands around a place in a text: a string that is not closed yet, and the blocks that are
open. -/
structure Surroundings where
  quoted : Bool
  blocks : Nat
  deriving DecidableEq, Repr

namespace Surroundings

/-- At the start of a text. -/
def outermost : Surroundings := ⟨false, 0⟩

/-- Braces between quotes do not count. -/
def pass (s : Surroundings) (c : Char) : Surroundings :=
  if c = '"' then { s with quoted := !s.quoted }
  else if s.quoted then s
  else if c = '\x7b' then { s with blocks := s.blocks + 1 }
  else if c = '\x7d' then { s with blocks := s.blocks - 1 }
  else s

def past (s : Surroundings) (text : List Char) : Surroundings := text.foldl pass s

/-- The blocks that are open at a line, without the one that the line closes first of all. -/
def depth (s : Surroundings) (line : List Char) : Nat :=
  if line.head? = some '\x7d' then s.blocks - 1 else s.blocks

@[simp] theorem past_nil (s : Surroundings) : s.past [] = s := rfl

@[simp] theorem past_cons (s : Surroundings) (c : Char) (text : List Char) :
    s.past (c :: text) = (s.pass c).past text := rfl

@[simp] theorem past_append (s : Surroundings) (text more : List Char) :
    s.past (text ++ more) = (s.past text).past more := List.foldl_append

theorem past_newline (s : Surroundings) : s.past ['\n'] = s := by
  simp [pass]

/-- The characters that change what stands around a place, and the one that ends a line. -/
def marks : List Char := ['"', '\x7b', '\x7d', '\n']

theorem past_quiet (s : Surroundings) {text : List Char} (quiet : ∀ c ∈ text, c ∉ marks) :
    s.past text = s := by
  induction text with
  | nil => rfl
  | cons c text ih =>
    rw [List.forall_mem_cons] at quiet
    have still : s.pass c = s := by
      simp_all [marks, pass]
    rw [past_cons, still, ih quiet.2]

/-- A string with its quotes, of which the text between them has none. -/
theorem past_string (n : Nat) {body : List Char} (inside : ∀ c ∈ body, c ≠ '"') :
    past ⟨false, n⟩ ('"' :: (body ++ ['"'])) = ⟨false, n⟩ := by
  have still : past ⟨true, n⟩ body = ⟨true, n⟩ := by
    induction body with
    | nil => rfl
    | cons c body ih =>
      rw [List.forall_mem_cons] at inside
      simpa [pass, inside.1] using ih inside.2
  have opens : pass ⟨false, n⟩ '"' = ⟨true, n⟩ := rfl
  rw [past_cons, opens, past_append, still]
  rfl

end Surroundings

/-- The lines, each led by `width` spaces for each block around it. -/
def indented (width : Nat) : Surroundings → List (List Char) → List (List Char)
  | _, [] => []
  | s, line :: more =>
    (List.replicate (width * s.depth line) ' ' ++ line) ::
      indented width (s.past (line ++ ['\n'])) more

theorem indented_length (width : Nat) (s : Surroundings) (ls : List (List Char)) :
    (indented width s ls).length = ls.length := by
  induction ls generalizing s with
  | nil => rfl
  | cons line ls ih => simp only [indented, List.length_cons, ih]

theorem indented_zero (s : Surroundings) (ls : List (List Char)) : indented 0 s ls = ls := by
  induction ls generalizing s with
  | nil => rfl
  | cons line ls ih => simp [indented, ih]

/-- Each indented line is one of the lines with spaces before it. -/
theorem mem_indented {width : Nat} {s : Surroundings} {ls : List (List Char)} {line : List Char}
    (member : line ∈ indented width s ls) :
    ∃ n, ∃ bare ∈ ls, line = List.replicate n ' ' ++ bare := by
  induction ls generalizing s with
  | nil => cases member
  | cons first ls ih =>
    rcases List.mem_cons.mp member with rfl | later
    · exact ⟨_, first, List.mem_cons_self, rfl⟩
    · obtain ⟨n, bare, found, same⟩ := ih later
      exact ⟨n, bare, List.mem_cons_of_mem _ found, same⟩

end ShiFormat
