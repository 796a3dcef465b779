import ShiFormat.Proofs.Faultless.Regions

/-!
Regions between two places. There is one exactly if the first place comes before the second in the
order of places, and so no region is empty.
-/
namespace ShiFormat

namespace Span

theorem between_of_lt {a b : Location} (before : a < b) : between a b = .ok ⟨a, b, before⟩ :=
  dif_pos before

theorem between_of_not_lt {a b : Location} (inverted : ¬ a < b) : between a b = .error ⟨a, b⟩ :=
  dif_neg inverted

theorem between_ok_iff {a b : Location} {s : Span} :
    between a b = .ok s ↔ s.start = a ∧ s.stop = b := by
  constructor
  · intro found
    by_cases before : a < b
    · rw [between_of_lt before] at found
      cases found
      exact ⟨rfl, rfl⟩
    · rw [between_of_not_lt before] at found
      cases found
  · rintro ⟨rfl, rfl⟩
    exact between_of_lt s.ordered

theorem width_pos (s : Span) : 1 ≤ s.width := by
  unfold width
  split
  · next same =>
    have ordered := s.column_lt same
    omega
  · omega

theorem width_shifted {a : Location} {n : Nat} {s : Span} (start : s.start = a)
    (stop : s.stop = a.shifted n) : s.width = n := by
  have same : s.start.line = s.stop.line := by
    rw [start, stop]
    rfl
  rw [width, if_pos same, start, stop]
  show a.column + n - a.column = n
  omega

/-- What holds of a region from one place to another. -/
structure Laws (a b : Location) : Prop where
  found : (∃ s, between a b = .ok s) ↔ a < b
  refused : between a b = .error ⟨a, b⟩ ↔ ¬ a < b
  bounds : ∀ s, between a b = .ok s → s.start = a ∧ s.stop = b
  /-- The width is a difference that is not negative, and not 0 either. -/
  width : ∀ s, between a b = .ok s → Checked.width s = .ok s.width ∧ 1 ≤ s.width
  shifted : ∀ s n, between a b = .ok s → b = a.shifted n → s.width = n

theorem laws (a b : Location) : Laws a b where
  found := by
    constructor
    · rintro ⟨s, found⟩
      obtain ⟨rfl, rfl⟩ := between_ok_iff.mp found
      exact s.ordered
    · intro before
      exact ⟨_, between_of_lt before⟩
  refused := by
    constructor
    · intro refused before
      rw [between_of_lt before] at refused
      cases refused
    · exact between_of_not_lt
  bounds s found := between_ok_iff.mp found
  width s _ := ⟨Checked.width_ok s, s.width_pos⟩
  shifted s n found right := by
    obtain ⟨start, stop⟩ := between_ok_iff.mp found
    rw [right] at stop
    exact width_shifted start stop

end Span

/-- Places have an order exactly within a file, which agrees with their equality, and each place
comes before those to its right, if their columns are words. There is a region exactly from a place
to a later one, and it is as wide as they are apart. -/
theorem places_ordered (a b c : Location) :
    Location.Laws a b c ∧
    (∀ n, ((a.shifted n).compare? a = some .gt ↔ 0 < n) ∧
      (a.column + n < wordLimit → Checked.shifted a n = .ok (a.shifted n))) ∧
    Span.Laws a b := by
  refine ⟨Location.laws a b c, fun n => ⟨?_, Checked.shifted_ok⟩, Span.laws a b⟩
  rw [Location.compare?_gt_iff, a.lt_shifted_iff]

/-- One file in three spellings. -/
theorem places_ordered_respelled :
    let a : Location := ⟨some ⟨"src/BUILD.shi"⟩, 1, 9⟩
    let b : Location := ⟨some ⟨"src//BUILD.shi"⟩, 2, 1⟩
    let c : Location := ⟨some ⟨"src/./BUILD.shi"⟩, 2, 4⟩
    a < b ∧ b < c ∧ a < c ∧ ∃ s, Span.between a b = .ok s ∧ 1 ≤ s.width := by
  intro a b c
  have first : a < b := by decide +kernel
  have second : b < c := by decide +kernel
  obtain ⟨order, _, region⟩ := places_ordered a b c
  obtain ⟨s, found⟩ := region.found.mpr first
  exact ⟨first, second, order.transitive first second, s, found, (region.width s found).2⟩

end ShiFormat
