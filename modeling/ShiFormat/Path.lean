import ShiFormat.Text

/-!
File paths. Two paths are equal when they spell the same steps: repeated slashes, a dot that is
not the first step, and a slash at the end do not count, and `..` is a step like any other.
-/
namespace ShiFormat

structure Path where
  text : String
  deriving Repr

namespace Path

inductive Step where
  | root
  | here
  | up
  | name (text : List Char)
  deriving DecidableEq, Repr

/-- The step a piece between slashes spells, if it spells one. -/
def step? : List Char → Option Step
  | [] => none
  | ['.'] => none
  | ['.', '.'] => some .up
  | piece => some (.name piece)

def steps (p : Path) : List Step :=
  match p.text.toList with
  | '/' :: rest => .root :: (Text.pieces '/' rest).filterMap step?
  | text => match Text.pieces '/' text with
    | ['.'] :: more => .here :: more.filterMap step?
    | pieces => pieces.filterMap step?

instance : BEq Path := ⟨fun a b => a.steps == b.steps⟩

instance : ToString Path := ⟨Path.text⟩

theorem beq_iff {a b : Path} : (a == b) = true ↔ a.steps = b.steps := by
  show (a.steps == b.steps) = true ↔ _
  exact beq_iff_eq

instance : EquivBEq Path where
  rfl := beq_iff.mpr rfl
  symm h := beq_iff.mpr (beq_iff.mp h).symm
  trans h k := beq_iff.mpr ((beq_iff.mp h).trans (beq_iff.mp k))

end Path
end ShiFormat
