import ShiFormat.Style

/-!
What is left of a coloured text without its style sequences, which is the text without those that it
had before it was painted. A text without escapes is left as it was.
-/
namespace ShiFormat.Style

/-- A character between the bracket and the `m` of a style sequence. -/
def isParameter (c : Char) : Bool := c.isDigit || c == ';'

/-- What is behind the style sequence that a text begins with. -/
def behindSequence? : List Char → Option (List Char)
  | '\x1b' :: '[' :: rest =>
    match rest.dropWhile isParameter with
    | 'm' :: more => some more
    | _ => none
  | _ => none

/-- With an escape in front these characters are a style sequence. -/
def Completes (body : List Char) : Prop :=
  ∃ parameters, (∀ c ∈ parameters, isParameter c = true) ∧ body = '[' :: (parameters ++ ['m'])

theorem behindSequence?_iff {text more : List Char} :
    behindSequence? text = some more ↔
      ∃ body, Completes body ∧ text = '\x1b' :: (body ++ more) := by
  constructor
  · intro found
    unfold behindSequence? at found
    split at found
    · next rest =>
      split at found
      · next ended =>
        cases found
        refine ⟨_, ⟨rest.takeWhile isParameter, List.all_eq_true.mp List.all_takeWhile, rfl⟩, ?_⟩
        simp [← ended]
      · cases found
    · cases found
  · rintro ⟨_, ⟨parameters, all, rfl⟩, rfl⟩
    have ended : (parameters ++ 'm' :: more).dropWhile isParameter = 'm' :: more := by
      rw [List.dropWhile_append_of_pos all]
      rfl
    simp [behindSequence?, ended]

theorem behindSequence?_shortens {text more : List Char}
    (found : behindSequence? text = some more) : more.length < text.length := by
  obtain ⟨body, _, rfl⟩ := behindSequence?_iff.mp found
  simp only [List.length_cons, List.length_append]
  omega

/-- A text without its style sequences, from the left. -/
def visible : List Char → List Char
  | [] => []
  | c :: rest =>
    match _ : behindSequence? (c :: rest) with
    | some more => visible more
    | none => c :: visible rest
termination_by text => text.length
decreasing_by
  · exact behindSequence?_shortens ‹_›
  · exact Nat.lt_succ_self _

theorem visible_sequence {text more : List Char} (found : behindSequence? text = some more) :
    visible text = visible more := by
  cases text with
  | nil => cases found
  | cons c rest =>
    rw [visible]
    split
    · next found' =>
      rw [found] at found'
      rw [Option.some.inj found']
    · next none =>
      rw [found] at none
      cases none

theorem visible_kept {c : Char} {rest : List Char} (none : behindSequence? (c :: rest) = none) :
    visible (c :: rest) = c :: visible rest := by
  rw [visible]
  split
  · next found =>
    rw [none] at found
    cases found
  · rfl

theorem visible_cons {c : Char} (other : c ≠ '\x1b') (rest : List Char) :
    visible (c :: rest) = c :: visible rest := by
  apply visible_kept
  unfold behindSequence?
  split
  · next same => exact absurd (List.cons.inj same).1 other
  · rfl

theorem visible_append {text : List Char} (plain : '\x1b' ∉ text) (rest : List Char) :
    visible (text ++ rest) = text ++ visible rest := by
  induction text with
  | nil => rfl
  | cons c text ih =>
    rw [List.mem_cons, not_or] at plain
    rw [List.cons_append, visible_cons (Ne.symm plain.1), ih plain.2, List.cons_append]

theorem visible_opening (s : Style) (rest : List Char) :
    visible (s.opening ++ rest) = visible rest :=
  visible_sequence (by cases s <;> rfl)

theorem visible_reset (rest : List Char) : visible (reset ++ rest) = visible rest :=
  visible_sequence rfl

/-- A character that may stand behind the escape of a style sequence. -/
def continues (c : Char) : Bool := c == '[' || c == 'm' || isParameter c

theorem Completes.continues {body : List Char} (completes : Completes body) {c : Char}
    (member : c ∈ body) : continues c = true := by
  obtain ⟨parameters, all, rfl⟩ := completes
  simp only [List.mem_cons, List.mem_append, List.not_mem_nil, or_false] at member
  rcases member with rfl | inside | rfl
  · rfl
  · simp [Style.continues, all c inside]
  · rfl

theorem Completes.plain {body : List Char} (completes : Completes body) : '\x1b' ∉ body := by
  intro escape
  cases completes.continues escape

/-- A character that begins no sequence begins none in front of another text either, unless that
text goes on with the body of one. -/
theorem visible_kept_of_prefix {c : Char} {text text' : List Char}
    (none : behindSequence? (c :: text) = none)
    (earlier : ∀ body, Completes body → body <+: text' → body <+: text) :
    visible (c :: text') = c :: visible text' := by
  apply visible_kept
  rw [Option.eq_none_iff_forall_ne_some]
  intro more found
  obtain ⟨body, completes, split⟩ := behindSequence?_iff.mp found
  obtain ⟨rfl, rfl⟩ := List.cons.inj split
  obtain ⟨more', rfl⟩ := earlier body completes (List.prefix_append body more)
  have found' : behindSequence? ('\x1b' :: (body ++ more')) = some more' :=
    behindSequence?_iff.mpr ⟨body, completes, rfl⟩
  rw [none] at found'
  cases found'

theorem prefix_of_stop {body text rest : List Char} (all : ∀ c ∈ body, continues c = true)
    (stop : ∀ c ∈ rest.head?, continues c = false) (ahead : body <+: text ++ rest) :
    body <+: text := by
  have front := List.prefix_append text rest
  rcases List.prefix_or_prefix_of_prefix ahead front with within | ⟨extra, rfl⟩
  · exact within
  · rw [List.prefix_append_right_inj] at ahead
    obtain ⟨more, rfl⟩ := ahead
    cases extra with
    | nil => simp
    | cons c extra =>
      have stopped := stop c rfl
      rw [all c (by simp)] at stopped
      cases stopped

/-- A sequence that a text leaves open is not completed behind it where a character follows that
stands in no sequence. -/
theorem visible_append_of_stop (text : List Char) {rest : List Char}
    (stop : ∀ c ∈ rest.head?, continues c = false) :
    visible (text ++ rest) = visible text ++ visible rest := by
  fun_induction visible text with
  | case1 => rfl
  | case2 c text more found ih =>
    obtain ⟨body, completes, split⟩ := behindSequence?_iff.mp found
    rw [← ih]
    apply visible_sequence
    exact behindSequence?_iff.mpr ⟨body, completes, by rw [split]; simp⟩
  | case3 c text none ih =>
    rw [List.cons_append, List.cons_append, ← ih]
    apply visible_kept_of_prefix none
    intro body completes ahead
    exact prefix_of_stop (fun _ => completes.continues) stop ahead

theorem reopen_append (again : List Char) {front : List Char} (plain : '\x1b' ∉ front)
    (rest : List Char) : reopen again (front ++ rest) = front ++ reopen again rest := by
  induction front with
  | nil => rfl
  | cons c front ih =>
    rw [List.mem_cons, not_or] at plain
    rw [List.cons_append, reopen, ih plain.2, List.cons_append]
    rintro rest rfl
    exact absurd rfl plain.1

theorem reopen_plain (again : List Char) {text : List Char} (plain : '\x1b' ∉ text) :
    reopen again text = text := by
  simpa [reopen] using reopen_append again plain []

theorem prefix_of_reopen {again front text : List Char} (plain : '\x1b' ∉ front)
    (ahead : front <+: reopen again text) : front <+: text := by
  induction front generalizing text with
  | nil => simp
  | cons c front ih =>
    rw [List.mem_cons, not_or] at plain
    revert ahead
    fun_cases reopen again text with
    | case1 rest =>
      intro ahead
      exact absurd (List.cons_prefix_cons.mp ahead).1.symm plain.1
    | case2 x rest =>
      intro ahead
      obtain ⟨rfl, later⟩ := List.cons_prefix_cons.mp ahead
      exact List.cons_prefix_cons.mpr ⟨rfl, ih plain.2 later⟩
    | case3 => exact id

theorem Completes.eq_of_reset {body more rest : List Char} (completes : Completes body)
    (reset : body ++ more = '[' :: '0' :: 'm' :: rest) : body = ['[', '0', 'm'] := by
  obtain ⟨parameters, all, rfl⟩ := completes
  cases parameters with
  | nil => simp at reset
  | cons c parameters =>
    cases parameters with
    | nil => simp_all
    | cons d parameters =>
      simp only [List.cons_append, List.cons.injEq] at reset
      have parameter := all d (by simp)
      rw [reset.2.2.1] at parameter
      cases parameter

/-- The opening that follows a reset is hidden as the reset is. -/
theorem visible_reopen {again : List Char}
    (hidden : ∀ rest, visible (again ++ rest) = visible rest) (text : List Char) :
    visible (reopen again text) = visible text := by
  fun_induction visible text with
  | case1 => rw [reopen, visible]
  | case2 c text more found ih =>
    obtain ⟨body, completes, split⟩ := behindSequence?_iff.mp found
    rw [split]
    by_cases resets : body = ['[', '0', 'm']
    · subst resets
      rw [List.cons_append, List.cons_append, List.cons_append, List.nil_append, reopen,
        List.append_assoc, visible_reset, hidden, ih]
    · have kept : reopen again ('\x1b' :: (body ++ more)) =
          '\x1b' :: (body ++ reopen again more) := by
        rw [reopen, reopen_append again completes.plain]
        intro rest _ reset
        exact resets (completes.eq_of_reset reset)
      rw [kept, ← ih]
      exact visible_sequence (behindSequence?_iff.mpr ⟨body, completes, rfl⟩)
  | case3 c text none ih =>
    -- A reset would be a sequence.
    have kept : reopen again (c :: text) = c :: reopen again text := by
      rw [reopen]
      rintro rest rfl rfl
      cases none
    rw [kept, ← ih]
    apply visible_kept_of_prefix none
    intro body completes
    exact prefix_of_reopen completes.plain

/-- A painted text looks as the text does, where a character follows that stands in no sequence. -/
theorem visible_paint_of_stop (colour : Bool) (s : Style) (text : List Char) {rest : List Char}
    (stop : ∀ c ∈ rest.head?, continues c = false) :
    visible (s.paint colour text ++ rest) = visible text ++ visible rest := by
  cases colour with
  | false => exact visible_append_of_stop text stop
  | true =>
    have escape : ∀ c ∈ (reset ++ rest).head?, continues c = false := by
      intro c first
      cases first
      rfl
    rw [paint, if_pos rfl, List.append_assoc, List.append_assoc, visible_opening,
      visible_append_of_stop _ escape, visible_reset, visible_reopen s.visible_opening]

theorem visible_paint (colour : Bool) (s : Style) {text : List Char} (plain : '\x1b' ∉ text)
    (rest : List Char) : visible (s.paint colour text ++ rest) = text ++ visible rest := by
  cases colour with
  | false => exact visible_append plain rest
  | true =>
    rw [paint, if_pos rfl, reopen_plain _ plain, List.append_assoc, List.append_assoc,
      visible_opening, visible_append plain, visible_reset]

end ShiFormat.Style
