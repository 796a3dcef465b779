import ShiFormat.Proofs.Faultless.Cursor

/-!
A cursor that is moved at will, also back to copies of it. Wherever it comes to, it stands behind
some characters of the text, counts their bytes, lines and columns, and knows what is ahead. A run
goes on as long as its steps stay on their line and its new lines go over line breaks.
-/
namespace ShiFormat

theorem Text.utf8Length_eq (text : List Char) :
    utf8Length text = (String.ofList text).utf8ByteSize := by
  induction text with
  | nil => rfl
  | cons c text ih =>
    have first : String.ofList (c :: text) = String.singleton c ++ String.ofList text := by
      rw [String.singleton_eq_ofList, ← String.ofList_append, List.singleton_append]
    rw [utf8Length, ih, first, String.utf8ByteSize_append, String.utf8ByteSize_singleton]

namespace Cursor

/-- What a cursor tells of its place in a text, behind these characters of it. -/
structure Tells (text before : List Char) (c : Cursor) : Prop where
  split : before ++ c.rest = text
  offset : c.offset = (String.ofList before).utf8ByteSize
  boundary : String.Pos.Raw.IsValid (String.ofList text) ⟨c.offset⟩
  /-- The bytes of the text without those of what is ahead. -/
  measured : Checked.offset text c = .ok c.offset
  line : c.line = 1 + before.count '\n'
  column : c.column = 1 + (before.reverse.takeWhile (· != '\n')).length
  peek : c.peek = c.rest[0]?.getD '\x00'
  peek2 : c.peek2 = c.rest[1]?.getD '\x00'
  atEnd : c.atEnd = true ↔ c.rest = []

/-- These characters stay on the line and pass the test. -/
def Passes (test : Char → Bool) (text : List Char) : Prop :=
  ∀ x ∈ text, x ≠ '\n' ∧ test x = true

/-- The longest start of what is ahead that passes. -/
structure LongestAhead (test : Char → Bool) (passed ahead : List Char) : Prop where
  front : passed <+: ahead
  passes : Passes test passed
  longest : ∀ longer, longer <+: ahead → Passes test longer → longer <+: passed

inductive Step where
  | advance
  | advanceBy (n : Nat)
  | advanceWhile (test : Char → Bool)
  | newLine

/-- Where a step leads, if it goes over a line break exactly where it is one to a new line. -/
def step? (c : Cursor) : Step → Option Cursor
  | .advance => if c.rest.head? = some '\n' then none else some c.advance
  | .advanceBy n => if '\n' ∈ c.rest.take n then none else some (c.advanceBy n)
  | .advanceWhile test => some (c.advanceWhile test)
  | .newLine => if c.rest.head? = some '\n' then some c.newLine else none

theorem step?_iff {c c' : Cursor} {m : Step} : c.step? m = some c' ↔
    match m with
    | .advance => c.rest.head? ≠ some '\n' ∧ c' = c.advance
    | .advanceBy n => '\n' ∉ c.rest.take n ∧ c' = c.advanceBy n
    | .advanceWhile test => c' = c.advanceWhile test
    | .newLine => c.rest.head? = some '\n' ∧ c' = c.newLine := by
  cases m <;> simp [step?, eq_comm]

theorem passes_iff (test : Char → Bool) (text : List Char) :
    Passes test text ↔ ∀ x ∈ text, (x != '\n' && test x) = true := by
  simp [Passes]

theorem longestAhead_takeWhile (test : Char → Bool) (ahead : List Char) :
    LongestAhead test (ahead.takeWhile fun x => x != '\n' && test x) ahead where
  front := List.takeWhile_prefix _
  passes := (passes_iff test _).mpr (List.all_eq_true.mp List.all_takeWhile)
  longest := by
    rintro longer ⟨more, rfl⟩ passes
    rw [List.takeWhile_append_of_pos ((passes_iff test longer).mp passes)]
    exact List.prefix_append _ _

namespace Along

variable {text before : List Char} {c : Cursor}

theorem advanceWhile (along : Along text before c) (test : Char → Bool) :
    Along text (before ++ c.rest.takeWhile fun x => x != '\n' && test x) (c.advanceWhile test) := by
  have longest := longestAhead_takeWhile test c.rest
  have taken := List.prefix_iff_eq_take.mp longest.front
  have moved := along.advanceBy (n := (c.rest.takeWhile fun x => x != '\n' && test x).length) (by
    rw [← taken]
    exact fun newline => (longest.passes _ newline).1 rfl)
  rwa [← taken] at moved

/-- A step leads on in the same text, or stays. -/
theorem step (along : Along text before c) {m : Step} {c' : Cursor} (leads : c.step? m = some c') :
    ∃ more, Along text (before ++ more) c' := by
  cases m with
  | advance =>
    obtain ⟨plain, rfl⟩ := step?_iff.mp leads
    refine ⟨_, along.advanceBy (n := 1) ?_⟩
    cases ahead : c.rest with
    | nil => simp
    | cons x rest => simpa [ahead, eq_comm] using plain
  | advanceBy n =>
    obtain ⟨plain, rfl⟩ := step?_iff.mp leads
    exact ⟨_, along.advanceBy plain⟩
  | advanceWhile test =>
    obtain rfl := step?_iff.mp leads
    exact ⟨_, along.advanceWhile test⟩
  | newLine =>
    obtain ⟨newline, rfl⟩ := step?_iff.mp leads
    obtain ⟨rest, ahead⟩ := List.head?_eq_some_iff.mp newline
    exact ⟨_, along.newLine ahead⟩

theorem tells (along : Along text before c) : Tells text before c where
  split := along.split
  offset := by rw [along.passed.offset, Text.utf8Length_eq]
  boundary := by
    rw [String.Pos.Raw.isValid_iff_exists_append]
    refine ⟨String.ofList before, String.ofList c.rest, ?_, ?_⟩
    · rw [← String.ofList_append, along.split]
    · rw [along.passed.offset, Text.utf8Length_eq]
      rfl
  measured := Checked.offset_ok along
  line := along.passed.line
  column := along.passed.column
  peek := by cases ahead : c.rest <;> simp [Cursor.peek, ahead]
  peek2 := by
    cases ahead : c.rest with
    | nil => simp [Cursor.peek2, ahead]
    | cons x rest => cases rest <;> simp [Cursor.peek2, ahead]
  atEnd := List.isEmpty_iff

end Along
end Cursor

/-- A cursor and the copies of it that were saved, the last one first. -/
structure Cursors where
  current : Cursor
  saved : List Cursor
  deriving DecidableEq, Repr

inductive Move where
  | step (m : Cursor.Step)
  | save
  | restore (n : Nat)

namespace Cursors

def start (text : List Char) : Cursors := ⟨.atStart text, []⟩

def move? (s : Cursors) : Move → Option Cursors
  | .step m => (s.current.step? m).map fun c => { s with current := c }
  | .save => some { s with saved := s.current :: s.saved }
  | .restore n => s.saved[n]?.map fun c => { s with current := c }

def run? (s : Cursors) : List Move → Option Cursors
  | [] => some s
  | m :: more => do (← s.move? m).run? more

/-- All cursors stand somewhere in the text. -/
def Within (text : List Char) (s : Cursors) : Prop :=
  ∀ c ∈ s.current :: s.saved, ∃ before, Cursor.Along text before c

theorem within_start (text : List Char) : Within text (start text) := by
  intro c member
  obtain rfl := List.mem_singleton.mp member
  exact ⟨[], Cursor.Passed.start text, rfl⟩

variable {text : List Char} {s s' : Cursors}

theorem Within.move {m : Move} (within : Within text s) (moved : s.move? m = some s') :
    Within text s' := by
  cases m with
  | step m =>
    obtain ⟨c, leads, rfl⟩ := Option.map_eq_some_iff.mp moved
    obtain ⟨before, along⟩ := within s.current List.mem_cons_self
    intro c' member
    rcases List.mem_cons.mp member with rfl | saved
    · obtain ⟨more, along'⟩ := along.step leads
      exact ⟨_, along'⟩
    · exact within c' (List.mem_cons_of_mem _ saved)
  | save =>
    obtain rfl := Option.some.inj moved
    intro c member
    rcases List.mem_cons.mp member with rfl | saved
    · exact within s.current List.mem_cons_self
    · exact within c saved
  | restore n =>
    obtain ⟨c, copy, rfl⟩ := Option.map_eq_some_iff.mp moved
    intro c' member
    rcases List.mem_cons.mp member with rfl | saved
    · exact within c' (List.mem_cons_of_mem _ (List.mem_of_getElem? copy))
    · exact within c' (List.mem_cons_of_mem _ saved)

/-- All cursors stand in the text after each move, so they do after a run. -/
theorem Within.run {moves : List Move} (within : Within text s) (reached : s.run? moves = some s') :
    Within text s' := by
  induction moves generalizing s with
  | nil =>
    obtain rfl := Option.some.inj reached
    exact within
  | cons m more ih =>
    obtain ⟨next, moved, later⟩ := Option.bind_eq_some_iff.mp reached
    exact ih (within.move moved) later

end Cursors

namespace Checked
open Cursor (Along Step)

def step (c : Cursor) : Step → Checked Cursor
  | .advance => advance c
  | .advanceBy n => advanceBy n c
  | .advanceWhile test => advanceWhile test (c.rest.length + 1) c
  | .newLine => newLine c

def move (s : Cursors) : Move → Checked Cursors
  | .step m => do
    let current ← step s.current m
    pure { s with current }
  | .save => pure { s with saved := s.current :: s.saved }
  | .restore n =>
    match s.saved[n]? with
    | some current => pure { s with current }
    | none => fault .unreachable

def run (s : Cursors) : List Move → Checked Cursors
  | [] => pure s
  | m :: more => do run (← move s m) more

section
variable {c c' : Cursor}

theorem advance_inv (moved : advance c = .ok c') :
    c.rest.head? ≠ some '\n' ∧ c' = c.advance := by
  unfold advance at moved
  split at moved
  · next none =>
    cases moved
    simp [none, Cursor.advance_of_atEnd none]
  · next x rest ahead =>
    obtain ⟨_, plain, counted⟩ := bind_ok_iff.mp moved
    obtain ⟨column, room, same⟩ := bind_ok_iff.mp counted
    have other := ensure_ok_iff.mp plain
    obtain ⟨_, rfl⟩ := addWord_ok_iff.mp room
    cases same
    obtain ⟨offset, line, column, rest'⟩ := c
    cases ahead
    exact ⟨by simpa using other, rfl⟩

theorem advanceBy_inv {n : Nat} (moved : advanceBy n c = .ok c') :
    '\n' ∉ c.rest.take n ∧ c' = c.advanceBy n := by
  induction n generalizing c with
  | zero =>
    cases moved
    exact ⟨by simp, rfl⟩
  | succ n ih =>
    obtain ⟨next, first, later⟩ := bind_ok_iff.mp moved
    obtain ⟨plain, rfl⟩ := advance_inv first
    obtain ⟨plain', rfl⟩ := ih later
    refine ⟨?_, (Cursor.advanceBy_succ n c).symm⟩
    cases ahead : c.rest with
    | nil => simp
    | cons x rest =>
      rw [Cursor.rest_advance ahead] at plain'
      rw [ahead, List.head?_cons, ne_eq, Option.some.injEq] at plain
      rw [List.take_succ_cons, List.mem_cons, not_or]
      exact ⟨Ne.symm plain, plain'⟩

theorem advanceWhile_inv {test : Char → Bool} {rounds : Nat}
    (moved : advanceWhile test rounds c = .ok c') : c' = c.advanceWhile test := by
  induction rounds generalizing c with
  | zero => cases moved
  | succ rounds ih =>
    rw [Cursor.advanceWhile_eq]
    rw [advanceWhile] at moved
    split at moved
    · next goes =>
      obtain ⟨next, first, later⟩ := bind_ok_iff.mp moved
      obtain ⟨_, rfl⟩ := advance_inv first
      rw [if_pos goes]
      exact ih later
    · next stops =>
      cases moved
      rw [if_neg stops]

theorem newLine_inv (moved : newLine c = .ok c') :
    c.rest.head? = some '\n' ∧ c' = c.newLine := by
  unfold newLine at moved
  split at moved
  · next rest ahead =>
    obtain ⟨line, room, same⟩ := bind_ok_iff.mp moved
    obtain ⟨_, rfl⟩ := addWord_ok_iff.mp room
    cases same
    obtain ⟨offset, line, column, rest'⟩ := c
    cases ahead
    exact ⟨rfl, rfl⟩
  · cases moved

theorem step_inv {m : Step} (moved : step c m = .ok c') : c.step? m = some c' := by
  rw [Cursor.step?_iff]
  cases m with
  | advance => exact advance_inv moved
  | advanceBy n => exact advanceBy_inv moved
  | advanceWhile test => exact advanceWhile_inv moved
  | newLine => exact newLine_inv moved

theorem step_ok {text before : List Char} (fits : Fits text) (along : Along text before c)
    {m : Step} (leads : c.step? m = some c') : step c m = .ok c' := by
  cases m with
  | advance =>
    obtain ⟨plain, rfl⟩ := Cursor.step?_iff.mp leads
    cases ahead : c.rest with
    | nil =>
      rw [Cursor.advance_of_atEnd ahead]
      exact advance_atEnd ahead
    | cons x rest =>
      rw [ahead, List.head?_cons, ne_eq, Option.some.injEq] at plain
      exact (advance_ok fits along ahead plain).1
  | advanceBy n =>
    obtain ⟨plain, rfl⟩ := Cursor.step?_iff.mp leads
    exact advanceBy_ok fits along plain
  | advanceWhile test =>
    obtain rfl := Cursor.step?_iff.mp leads
    exact advanceWhile_ok fits along test (Nat.lt_succ_self _)
  | newLine =>
    obtain ⟨newline, rfl⟩ := Cursor.step?_iff.mp leads
    obtain ⟨rest, ahead⟩ := List.head?_eq_some_iff.mp newline
    exact (newLine_ok fits along ahead).1

end

variable {text : List Char} {s s' : Cursors}

theorem move_inv {m : Move} (moved : move s m = .ok s') : s.move? m = some s' := by
  cases m with
  | step m =>
    obtain ⟨c, stepped, same⟩ := bind_ok_iff.mp moved
    cases same
    rw [Cursors.move?, step_inv stepped]
    rfl
  | save =>
    cases moved
    rfl
  | restore n =>
    rw [Cursors.move?]
    cases copy : s.saved[n]? with
    | none =>
      simp only [move, copy] at moved
      cases moved
    | some c =>
      simp only [move, copy] at moved
      cases moved
      rfl

theorem move_ok (fits : Fits text) (within : s.Within text) {m : Move}
    (moved : s.move? m = some s') : move s m = .ok s' := by
  cases m with
  | step m =>
    obtain ⟨c, leads, rfl⟩ := Option.map_eq_some_iff.mp moved
    obtain ⟨before, along⟩ := within s.current List.mem_cons_self
    rw [move, step_ok fits along leads]
    rfl
  | save =>
    cases moved
    rfl
  | restore n =>
    obtain ⟨c, copy, rfl⟩ := Option.map_eq_some_iff.mp moved
    simp only [move, copy]
    rfl

/-- A run with all checks goes where the plain run goes, whatever the text is. -/
theorem run_inv {moves : List Move} (reached : run s moves = .ok s') : s.run? moves = some s' := by
  induction moves generalizing s with
  | nil =>
    cases reached
    rfl
  | cons m more ih =>
    obtain ⟨next, moved, later⟩ := bind_ok_iff.mp reached
    rw [Cursors.run?, move_inv moved]
    exact ih later

theorem run_ok (fits : Fits text) (within : s.Within text) {moves : List Move}
    (reached : s.run? moves = some s') : run s moves = .ok s' := by
  induction moves generalizing s with
  | nil =>
    cases reached
    rfl
  | cons m more ih =>
    obtain ⟨next, moved, later⟩ := Option.bind_eq_some_iff.mp reached
    rw [run, move_ok fits within moved]
    exact ih (within.move moved) later

end Checked

/-- Every cursor that a run of moves leaves, and every copy, tells its place in the text, goes on as
far as a test holds, and stays at the end. The checks of a run hold exactly where its steps stay on
their line and its new lines go over line breaks, if all places of the text are words. -/
theorem cursors_tell_places (text : List Char) (moves : List Move) (s : Cursors) :
    (Checked.run (.start text) moves = .ok s → (Cursors.start text).run? moves = some s) ∧
    ((Cursors.start text).run? moves = some s →
      (Fits text → Checked.run (.start text) moves = .ok s) ∧
      ∀ c ∈ s.current :: s.saved, ∃ before, c.Tells text before ∧
        (∀ test, ∃ passed, Cursor.LongestAhead test passed c.rest ∧
          (c.advanceWhile test).Tells text (before ++ passed)) ∧
        (c.rest = [] → c.advance = c)) := by
  have start := Cursors.within_start text
  refine ⟨Checked.run_inv, fun reached => ⟨fun fits => Checked.run_ok fits start reached, ?_⟩⟩
  intro c member
  obtain ⟨before, along⟩ := start.run reached c member
  refine ⟨before, along.tells, fun test => ?_, Cursor.advance_of_atEnd⟩
  exact ⟨_, Cursor.longestAhead_takeWhile test c.rest, (along.advanceWhile test).tells⟩

/-- A character of two bytes, a NUL and a line break, gone over and gone back from. -/
theorem cursors_tell_places_restored :
    let text := ['é', '\x00', '\n', 'b']
    let moves : List Move := [.save, .step (.advanceWhile (· != 'b')), .step .newLine, .save,
      .restore 1, .step .advance, .step (.advanceBy 1)]
    let s : Cursors := ⟨⟨3, 1, 3, ['\n', 'b']⟩, [⟨4, 2, 1, ['b']⟩, ⟨0, 1, 1, text⟩]⟩
    Fits text ∧ (Cursors.start text).run? moves = some s ∧
      Checked.run (.start text) moves = .ok s ∧
      ∀ c ∈ s.current :: s.saved, ∃ before, c.Tells text before := by
  intro text moves s
  have fits : Fits text := fits_of_short (by decide)
  have reached : (Cursors.start text).run? moves = some s := by decide
  obtain ⟨checked, each⟩ := (cursors_tell_places text moves s).2 reached
  refine ⟨fits, reached, checked fits, fun c member => ?_⟩
  obtain ⟨before, tells, _⟩ := each c member
  exact ⟨before, tells⟩

end ShiFormat
