import ShiFormat.Proofs.Faultless.Outline
import ShiFormat.Proofs.Outline.Text

/-!
Outlines that one printer prints in turn, each to a sink of its own limit. A sink takes the first
bytes of an outline, as many as it has room for, and the printer goes on with the indent of the line
that was cut.
-/
namespace ShiFormat

/-- A text with some spaces before each of its lines. -/
def Text.indentedBy (indent : Nat) (text : String) : String :=
  String.ofList (unlines ((lines text.toList).map (List.replicate indent ' ' ++ ·)))

/-- Takes some bytes of a line of this indent, or as much of them as there is room for. -/
def Sink.write (s : Sink) (indent : Nat) (piece : List UInt8) : Except Stop Sink :=
  let taken := s.taken ++ piece
  if s.holds taken.length then .ok { s with taken }
  else .error (.full indent (taken.take (s.limit.getD 0)))

theorem Sink.holds_of_append {s : Sink} {a b : List UInt8} (h : s.holds (a ++ b).length = true) :
    s.holds a.length = true := by
  obtain ⟨taken, _ | limit⟩ := s
  · rfl
  · simp only [holds, Option.all_some, decide_eq_true_eq, List.length_append] at h ⊢
    omega

theorem Sink.write_full {s : Sink} {piece : List UInt8} (indent : Nat)
    (full : s.holds (s.taken ++ piece).length = false) :
    s.write indent piece = .error (.full indent ((s.taken ++ piece).take (s.limit.getD 0))) := by
  rw [write, full]
  rfl

theorem Sink.take_of_full {s : Sink} {a : List UInt8} (b : List UInt8)
    (full : s.holds a.length = false) :
    (a ++ b).take (s.limit.getD 0) = a.take (s.limit.getD 0) := by
  obtain ⟨taken, _ | limit⟩ := s
  · cases full
  · simp only [holds, Option.all_some, decide_eq_false_iff_not, Nat.not_le] at full
    exact List.take_append_of_le_length (Nat.le_of_lt full)

/-- It makes no difference in how many pieces bytes are written. -/
theorem Sink.write_append (s : Sink) (indent : Nat) (first second : List UInt8) :
    s.write indent (first ++ second) = s.write indent first >>= (·.write indent second) := by
  cases room : s.holds (s.taken ++ first).length with
  | true =>
    simp only [write, room, ↓reduceIte, ← List.append_assoc]
    rfl
  | false =>
    have full : s.holds (s.taken ++ (first ++ second)).length = false := by
      rw [← List.append_assoc]
      exact Bool.eq_false_iff.mpr fun all => Bool.eq_false_iff.mp room (holds_of_append all)
    rw [write_full indent full, write_full indent room, ← List.append_assoc, take_of_full _ room]
    rfl

namespace Printing

def write (piece : List UInt8) : Printing := fun pen => do
  pure { pen with sink := ← pen.sink.write pen.indent piece }

/-- One write after another, each of which may be the last. -/
def writes : List (List UInt8) → Printing
  | [] => nothing
  | piece :: more => (write piece).andThen (writes more)

theorem write_append (first second : List UInt8) :
    write (first ++ second) = (write first).andThen (write second) := by
  funext pen
  rw [write, Sink.write_append, andThen, write]
  cases pen.sink.write pen.indent first <;> rfl

theorem writes_flatten (piece : List UInt8) (more : List (List UInt8)) :
    writes (piece :: more) = write (piece :: more).flatten := by
  induction more generalizing piece with
  | nil =>
    funext pen
    simp only [writes, andThen, nothing, List.flatten_cons, List.flatten_nil, List.append_nil]
    cases write piece pen <;> rfl
  | cons next more ih =>
    rw [writes, ih next, ← write_append]
    rfl

/-- A line is written as the spaces of its indent, one by one, and its text in any pieces. -/
theorem line_eq_writes {text : String} {pieces : List (List UInt8)}
    (whole : pieces.flatten = OutlineLine.bytes ⟨0, text⟩) (pen : Pen) :
    line text pen =
      writes (List.replicate pen.indent (String.utf8EncodeChar ' ') ++ pieces) pen := by
  have bytes : OutlineLine.bytes ⟨pen.indent, text⟩ =
      (List.replicate pen.indent (String.utf8EncodeChar ' ') ++ pieces).flatten := by
    rw [List.flatten_append, whole]
    simp [OutlineLine.bytes, OutlineLine.chars, List.flatMap_replicate]
  cases split : List.replicate pen.indent (String.utf8EncodeChar ' ') ++ pieces with
  | nil =>
    rw [split, List.flatten_nil] at bytes
    simp [OutlineLine.bytes, OutlineLine.chars] at bytes
  | cons piece more =>
    rw [writes_flatten, ← split, ← bytes]
    rfl

end Printing

namespace Outline

theorem indentAt_none_iff {lines : List OutlineLine} {offset : Nat} :
    indentAt lines offset = none ↔ (bytes lines).length ≤ offset := by
  refine ⟨length_le_of_indentAt, fun short => ?_⟩
  induction lines generalizing offset with
  | nil => rfl
  | cons l more ih =>
    rw [bytes, List.flatMap_cons, List.length_append] at short
    rw [indentAt, if_neg (by omega)]
    exact ih (by rw [bytes]; omega)

theorem mem_of_indentAt {lines : List OutlineLine} {offset indent : Nat}
    (found : indentAt lines offset = some indent) : ∃ l ∈ lines, l.indent = indent := by
  induction lines generalizing offset with
  | nil => cases found
  | cons l more ih =>
    rw [indentAt] at found
    split at found
    · exact ⟨l, List.mem_cons_self, Option.some.inj found⟩
    · obtain ⟨l', member, same⟩ := ih found
      exact ⟨l', List.mem_cons_of_mem l member, same⟩

end Outline

theorem Node.indent_le_outline {n : Node} {indent : Nat} {l : OutlineLine}
    (member : l ∈ n.outline indent) : indent ≤ l.indent := by
  rw [outline_deeper] at member
  obtain ⟨l', -, rfl⟩ := List.mem_map.mp member
  exact Nat.le_add_right indent l'.indent

/-- The bytes of an outline with some spaces before each line. -/
def Node.indentedBytes (n : Node) (indent : Nat) : List UInt8 :=
  (Text.indentedBy indent n.outlineText).toUTF8.data.toList

theorem Node.bytes_outline {n : Node} (plain : n.tokens.all Token.plain = true) (indent : Nat) :
    Outline.bytes (n.outline indent) = n.indentedBytes indent := by
  rw [Outline.bytes_eq, outline_deeper, Outline.text_deeper indent (n.solid_outline plain 0),
    indentedBytes, Text.indentedBy, outlineText]

/-- What a print comes to that starts at an indent and has this to print in full. -/
structure PrefixTaken (whole : List UInt8) (limit : Option Nat) (indent : Nat)
    (printed : OutlinePrinted) (after : OutlinePrinter) : Prop where
  taken : printed.taken = limit.elim whole whole.take
  complete : printed.complete = true ↔ ∀ most ∈ limit, whole.length ≤ most
  kept : printed.complete = true → after.indent = indent
  deeper : printed.complete = false → indent ≤ after.indent

section
variable {p : OutlinePrinter} {most : Nat} {n : Node}

theorem OutlinePrinter.print_fitting
    (fits : (Outline.bytes (n.outline p.indent)).length ≤ most) :
    p.print (some most) n = (⟨Outline.bytes (n.outline p.indent), true⟩, p) := by
  simp only [print, Outline.indentAt_none_iff.mpr fits, List.take_of_length_le fits]

theorem OutlinePrinter.print_cut {indent : Nat}
    (cut : Outline.indentAt (n.outline p.indent) most = some indent) :
    p.print (some most) n =
      (⟨(Outline.bytes (n.outline p.indent)).take most, false⟩, ⟨indent⟩) := by
  simp only [print, cut]

end

theorem OutlinePrinter.prefixTaken_print (p : OutlinePrinter) (limit : Option Nat) (n : Node) :
    PrefixTaken (Outline.bytes (n.outline p.indent)) limit p.indent (p.print limit n).1
      (p.print limit n).2 := by
  cases limit with
  | none => exact ⟨rfl, by simp [print], fun _ => rfl, by simp [print]⟩
  | some most =>
    cases cut : Outline.indentAt (n.outline p.indent) most with
    | none =>
      have fits := Outline.indentAt_none_iff.mp cut
      rw [print_fitting fits]
      exact ⟨(List.take_of_length_le fits).symm, by simpa using fits, fun _ => rfl, by simp⟩
    | some indent =>
      have beyond : ¬ (Outline.bytes (n.outline p.indent)).length ≤ most := fun fits => by
        rw [Outline.indentAt_none_iff.mpr fits] at cut
        cases cut
      obtain ⟨l, member, rfl⟩ := Outline.mem_of_indentAt cut
      rw [print_cut cut]
      exact ⟨rfl, by simpa using beyond, by simp, fun _ => Node.indent_le_outline member⟩

/-- One printer prints trees one after another, each to a sink of its own limit. -/
def Checked.printAll (p : OutlinePrinter) : List (Option Nat × Node) →
    Checked (List OutlinePrinted × OutlinePrinter)
  | [] => .ok ([], p)
  | (limit, n) :: more => do
    let (printed, p) ← print p limit n
    let (rest, p) ← printAll p more
    .ok (printed :: rest, p)

/-- What the printer prints and where it is left, one tree after another. -/
def OutlinePrinter.printAll (p : OutlinePrinter) :
    List (Option Nat × Node) → List OutlinePrinted × OutlinePrinter
  | [] => ([], p)
  | (limit, n) :: more =>
    let (printed, p) := p.print limit n
    let (rest, p) := p.printAll more
    (printed :: rest, p)

theorem Checked.printAll_ok (p : OutlinePrinter) (steps : List (Option Nat × Node)) :
    Checked.printAll p steps = .ok (p.printAll steps) := by
  induction steps generalizing p with
  | nil => rfl
  | cons step more ih =>
    rw [Checked.printAll, print_ok, ok_bind]
    simp only [ih]
    rfl

theorem OutlinePrinter.printAll_append (p : OutlinePrinter)
    (earlier later : List (Option Nat × Node)) :
    p.printAll (earlier ++ later) =
      ((p.printAll earlier).1 ++ ((p.printAll earlier).2.printAll later).1,
        ((p.printAll earlier).2.printAll later).2) := by
  induction earlier generalizing p with
  | nil => rfl
  | cons step more ih => simp only [List.cons_append, printAll, ih]

/-- Whatever each sink takes, the printer is never at fault, and each print comes to the first bytes
of the outline under the indent that the print before has left. Lines are written in small pieces,
each of which may be the last. -/
theorem cut_outline_is_start (p : OutlinePrinter) (steps : List (Option Nat × Node))
    (plain : ∀ step ∈ steps, step.2.tokens.all Token.plain = true) :
    (∀ text pieces pen, pieces.flatten = OutlineLine.bytes ⟨0, text⟩ → Printing.line text pen =
      Printing.writes (List.replicate pen.indent (String.utf8EncodeChar ' ') ++ pieces) pen) ∧
    ∃ prints last, Checked.printAll p steps = .ok (prints, last) ∧
      ∀ earlier limit n later, steps = earlier ++ (limit, n) :: later →
        ∃ before now printed after rest,
          Checked.printAll p earlier = .ok (before, now) ∧
          Checked.print now limit n = .ok (printed, after) ∧
          Checked.printAll after later = .ok (rest, last) ∧ prints = before ++ printed :: rest ∧
          Checked.print .fresh none n = .ok (⟨n.outlineText.toUTF8.data.toList, true⟩, .fresh) ∧
          Checked.print now none n = .ok (⟨n.indentedBytes now.indent, true⟩, now) ∧
          PrefixTaken (n.indentedBytes now.indent) limit now.indent printed after := by
  refine ⟨fun text pieces pen whole => Printing.line_eq_writes whole pen, _, _,
    Checked.printAll_ok p steps, fun earlier limit n later split => ?_⟩
  have single : n.tokens.all Token.plain = true := plain (limit, n) (by simp [split])
  have fresh : Checked.print .fresh none n =
      .ok (⟨n.outlineText.toUTF8.data.toList, true⟩, .fresh) := by
    rw [Checked.print_ok, Node.outlineText, ← Outline.bytes_eq]
    rfl
  have full (now : OutlinePrinter) : Checked.print now none n =
      .ok (⟨n.indentedBytes now.indent, true⟩, now) := by
    rw [Checked.print_ok, ← Node.bytes_outline single]
    rfl
  let now := (p.printAll earlier).2
  let after := (now.print limit n).2
  have whole : p.printAll steps = ((p.printAll earlier).1 ++ (now.print limit n).1 ::
      (after.printAll later).1, (after.printAll later).2) := by
    rw [split, OutlinePrinter.printAll_append]
    rfl
  rw [whole]
  refine ⟨_, now, (now.print limit n).1, after, _, Checked.printAll_ok p earlier,
    Checked.print_ok now limit n, Checked.printAll_ok after later, rfl, fresh, full now, ?_⟩
  rw [← Node.bytes_outline single]
  exact now.prefixTaken_print limit n

/-- A sink that is full in the middle of a character, and a print after that. -/
theorem cut_outline_is_start_twice :
    let negated := Node.notOp (.literal ⟨.string, "\"é\"", .unknown⟩)
    let plainName := Node.identifier ⟨.identifier, "a", .unknown⟩
    let steps := [(some 16, negated), (none, plainName)]
    (∀ step ∈ steps, step.2.tokens.all Token.plain = true) ∧
      ∃ first second, Checked.printAll .fresh steps = .ok ([first, second], ⟨2⟩) ∧
        PrefixTaken (negated.indentedBytes 0) (some 16) 0 first ⟨2⟩ ∧ first.complete = false ∧
        PrefixTaken (plainName.indentedBytes 2) none 2 second ⟨2⟩ := by
  intro negated plainName steps
  have plain : ∀ step ∈ steps, step.2.tokens.all Token.plain = true := by decide
  obtain ⟨_, prints, last, run, each⟩ := cut_outline_is_start .fresh steps plain
  obtain ⟨_, _, first, _, _, start, cut, _, _, _, _, taken⟩ := each [] _ _ _ rfl
  obtain ⟨_, _, second, _, _, one, whole, stop, shape, _, _, taken'⟩ := each [_] _ _ [] rfl
  rw [Checked.print_ok] at cut whole
  rw [Checked.printAll_ok] at one
  -- The runs up to each print are the ones that the steps begin with.
  cases start
  cases cut
  cases one
  cases whole
  cases stop
  rw [shape] at run
  exact ⟨plain, _, _, run, taken, rfl, taken'⟩

end ShiFormat
