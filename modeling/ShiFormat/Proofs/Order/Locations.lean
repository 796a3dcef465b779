import ShiFormat.Location

/-!
The order of places. Places have an order if their files are one, however its path is spelled, and
it goes by the line and then by the column. It is a strict order, and it tells apart what equality
tells apart.
-/
namespace ShiFormat.Location

theorem sameFile_iff {a b : Location} :
    (a.file == b.file) = true ↔ a.file.map Path.steps = b.file.map Path.steps := by
  cases a.file <;> cases b.file <;> simp [Path.beq_iff]

theorem beq_iff {a b : Location} :
    (a == b) = true ↔
      a.file.map Path.steps = b.file.map Path.steps ∧ a.line = b.line ∧ a.column = b.column := by
  show (a.file == b.file && a.line == b.line && a.column == b.column) = true ↔ _
  simp [sameFile_iff, and_assoc]

theorem compare?_eq_none_iff {a b : Location} :
    a.compare? b = none ↔ (a.file == b.file) = false := by
  cases same : a.file == b.file <;> simp [compare?, same]

theorem compare?_eq_some_iff {a b : Location} {order : Ordering} :
    a.compare? b = some order ↔ a.file.map Path.steps = b.file.map Path.steps ∧
      (compare a.line b.line).then (compare a.column b.column) = order := by
  rw [← sameFile_iff]
  cases same : a.file == b.file <;> simp [compare?, same]

theorem compare?_eq_iff {a b : Location} : a.compare? b = some .eq ↔ (a == b) = true := by
  rw [compare?_eq_some_iff, beq_iff, Ordering.then_eq_eq, Nat.compare_eq_eq, Nat.compare_eq_eq]

theorem compare?_swap (a b : Location) : b.compare? a = (a.compare? b).map Ordering.swap := by
  cases found : a.compare? b with
  | none =>
    rw [compare?_eq_none_iff, Bool.eq_false_iff, ne_eq, sameFile_iff] at found
    rw [Option.map_none, compare?_eq_none_iff, Bool.eq_false_iff, ne_eq, sameFile_iff]
    exact fun same => found same.symm
  | some order =>
    obtain ⟨same, rfl⟩ := compare?_eq_some_iff.mp found
    rw [Option.map_some, compare?_eq_some_iff, Ordering.swap_then, Nat.compare_swap,
      Nat.compare_swap]
    exact ⟨same.symm, rfl⟩

theorem compare?_gt_iff {a b : Location} : a.compare? b = some .gt ↔ b < a := by
  show _ ↔ b.compare? a = some .lt
  rw [compare?_swap b a]
  cases b.compare? a with
  | none => simp
  | some order => cases order <;> simp

/-- Equal places compare alike. -/
theorem compare?_congr {a b : Location} (equal : (a == b) = true) (c : Location) :
    a.compare? c = b.compare? c := by
  obtain ⟨same, line, column⟩ := beq_iff.mp equal
  have file : (a.file == c.file) = (b.file == c.file) := by
    rw [Bool.eq_iff_iff, sameFile_iff, sameFile_iff, same]
  rw [compare?, compare?, file, line, column]

theorem lt_iff {a b : Location} :
    a < b ↔ a.file.map Path.steps = b.file.map Path.steps ∧
      (a.line < b.line ∨ a.line = b.line ∧ a.column < b.column) := by
  show a.compare? b = some .lt ↔ _
  rw [compare?_eq_some_iff, Ordering.then_eq_lt, Nat.compare_eq_lt, Nat.compare_eq_eq,
    Nat.compare_eq_lt]

theorem lt_irrefl (a : Location) : ¬ a < a := by
  rw [lt_iff]
  omega

theorem lt_trans {a b c : Location} (first : a < b) (second : b < c) : a < c := by
  rw [lt_iff] at first second ⊢
  obtain ⟨same, first⟩ := first
  obtain ⟨same', second⟩ := second
  refine ⟨same.trans same', ?_⟩
  omega

theorem lt_shifted_iff (a : Location) (n : Nat) : a < a.shifted n ↔ 0 < n := by
  rw [lt_iff]
  simp [shifted]

/-- The order of places in one file. -/
theorem le_iff {a b : Location} (same : a.file = b.file) :
    a ≤ b ↔ a.line < b.line ∨ a.line = b.line ∧ a.column ≤ b.column := by
  have found : a.compare? b = some ((compare a.line b.line).then (compare a.column b.column)) :=
    compare?_eq_some_iff.mpr ⟨by rw [same], rfl⟩
  show (a.compare? b).any Ordering.isLE = true ↔ _
  rw [found, Option.any_some, Ordering.isLE_then_iff_or, Nat.compare_eq_lt, Nat.compare_eq_eq,
    Nat.isLE_compare]

theorem le_trans {a b c : Location} (same : a.file = b.file) (same' : b.file = c.file)
    (first : a ≤ b) (second : b ≤ c) : a ≤ c := by
  rw [le_iff same] at first
  rw [le_iff same'] at second
  rw [le_iff (same.trans same')]
  omega

theorem shifted_not_le (a : Location) {n : Nat} (positive : 0 < n) : ¬ a.shifted n ≤ a := by
  have same : (a.shifted n).file = a.file := rfl
  rw [le_iff same]
  simp only [shifted]
  omega

/-- What holds of the order of any three places. -/
structure Laws (a b c : Location) : Prop where
  unordered : a.compare? b = none ↔ (a.file == b.file) = false
  equal : a.compare? b = some .eq ↔ (a == b) = true
  alike : (a == b) = true → a.compare? c = b.compare? c
  reversed : b.compare? a = (a.compare? b).map Ordering.swap
  earlier : a < b ↔ (a.file == b.file) = true ∧
    (a.line < b.line ∨ a.line = b.line ∧ a.column < b.column)
  irreflexive : ¬ a < a
  transitive : a < b → b < c → a < c

theorem laws (a b c : Location) : Laws a b c where
  unordered := compare?_eq_none_iff
  equal := compare?_eq_iff
  alike equal := compare?_congr equal c
  reversed := a.compare?_swap b
  earlier := by rw [lt_iff, sameFile_iff]
  irreflexive := a.lt_irrefl
  transitive := lt_trans

end ShiFormat.Location
