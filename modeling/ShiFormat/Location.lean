import ShiFormat.Path

/-!
Places in a build file. Lines and columns count from 1, so a 0 marks a place that is not known.
Places in different files have no order.
-/
namespace ShiFormat

structure Location where
  file : Option Path
  line : Nat
  column : Nat
  deriving Repr

namespace Location

def unknown : Location := ⟨none, 0, 0⟩

def isValid (a : Location) : Bool := a.line != 0 && a.column != 0

/-- The place `n` columns to the right on the same line. -/
def shifted (a : Location) (n : Nat) : Location := { a with column := a.column + n }

instance : BEq Location :=
  ⟨fun a b => a.file == b.file && a.line == b.line && a.column == b.column⟩

def compare? (a b : Location) : Option Ordering :=
  if a.file == b.file then some ((compare a.line b.line).then (compare a.column b.column))
  else none

instance : LT Location := ⟨fun a b => a.compare? b = some .lt⟩

instance (a b : Location) : Decidable (a < b) :=
  inferInstanceAs (Decidable (a.compare? b = some .lt))

instance : LE Location := ⟨fun a b => (a.compare? b).any Ordering.isLE = true⟩

instance (a b : Location) : Decidable (a ≤ b) :=
  inferInstanceAs (Decidable ((a.compare? b).any Ordering.isLE = true))

def fileName (a : Location) : String := (a.file.map Path.text).getD "<unknown>"

instance : ToString Location := ⟨fun a => s!"{a.fileName}:{a.line}:{a.column}"⟩

theorem lt_shifted (a : Location) {n : Nat} (positive : 0 < n) : a < a.shifted n := by
  show a.compare? (a.shifted n) = some .lt
  have column : compare a.column (a.column + n) = .lt := Nat.compare_eq_lt.mpr (by omega)
  simp [compare?, shifted, column]

end Location
end ShiFormat
