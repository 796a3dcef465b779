import ShiFormat.Proofs.Diagnostics.Underline

/-!
What colour adds to a diagnostic. Behind each painted text, and at the end of each row, stands a
character that completes no style sequence. So without such sequences, those of the colour and those
that the message, the path and the source bring with them, all rows are the same in colour and
without.
-/
namespace ShiFormat

namespace Style

/-- What is visible of a part is the same in colour and without, whatever stands behind it. -/
def SameInColour (part : Bool → List Char) : Prop :=
  ∃ text, ∀ colour rest, visible (part colour ++ rest) = text ++ visible rest

namespace SameInColour

variable {a b : Bool → List Char}

theorem nothing : SameInColour fun _ => [] := ⟨[], fun _ _ => rfl⟩

theorem append (first : SameInColour a) (second : SameInColour b) :
    SameInColour fun colour => a colour ++ b colour := by
  obtain ⟨text, first⟩ := first
  obtain ⟨text', second⟩ := second
  refine ⟨text ++ text', fun colour rest => ?_⟩
  rw [List.append_assoc, first, second, List.append_assoc]

theorem shown_if (same : SameInColour a) (shown : Prop) [Decidable shown] :
    SameInColour fun colour => if shown then a colour else [] := by
  by_cases holds : shown
  · simpa only [if_pos holds] using same
  · simpa only [if_neg holds] using nothing

theorem visible_eq (same : SameInColour a) : visible (a true) = visible (a false) := by
  obtain ⟨text, same⟩ := same
  have coloured := same true []
  have plain := same false []
  rw [List.append_nil] at coloured plain
  rw [coloured, plain]

end SameInColour

/-- A character that completes no sequence and begins none. -/
def parts (c : Char) : Bool := !continues c && c != '\x1b'

section
variable {c : Char} (parted : parts c = true)
include parted

theorem stop_of_parts (rest : List Char) : ∀ x ∈ (c :: rest).head?, continues x = false := by
  intro x first
  cases first
  simp only [parts, Bool.and_eq_true, Bool.not_eq_true'] at parted
  exact parted.1

theorem visible_of_parts (rest : List Char) : visible (c :: rest) = c :: visible rest := by
  simp only [parts, Bool.and_eq_true, bne_iff_ne] at parted
  exact visible_cons parted.2 rest

theorem visible_parted (text rest : List Char) :
    visible (text ++ c :: rest) = visible text ++ c :: visible rest := by
  rw [visible_append_of_stop text (stop_of_parts parted rest), visible_of_parts parted]

theorem visible_paint_parted (colour : Bool) (s : Style) (text rest : List Char) :
    visible (s.paint colour text ++ c :: rest) = visible text ++ c :: visible rest := by
  rw [visible_paint_of_stop colour s text (stop_of_parts parted rest), visible_of_parts parted]

end

end Style

namespace Diagnostic
open Style

theorem same_headRow (d : Diagnostic) : SameInColour fun colour => d.headRow colour := by
  refine ⟨visible d.severity.name.toList ++ ':' :: ' ' :: visible d.message.toList ++ ['\n'], ?_⟩
  intro colour rest
  simp only [headRow, Severity.label, List.append_assoc, List.cons_append, List.nil_append]
  rw [visible_paint_parted (by decide), visible_cons (by decide), visible_paint_parted (by decide)]

theorem same_pointerRow (d : Diagnostic) : SameInColour fun colour => d.pointerRow colour := by
  refine ⟨' ' :: visible ['-', '-', '>'] ++ ' ' :: visible (toString d.span.start).toList ++
    ['\n'], ?_⟩
  intro colour rest
  simp only [pointerRow, List.append_assoc, List.cons_append, List.nil_append]
  rw [visible_cons (by decide), visible_paint_parted (by decide), visible_paint_parted (by decide)]

theorem same_sourceRow (d : Diagnostic) (line : Nat) :
    SameInColour fun colour => d.sourceRow colour line := by
  refine ⟨visible (padNumber line) ++ ' ' :: visible ['|'] ++ ' ' :: visible (d.source.line line) ++
    ['\n'], ?_⟩
  intro colour rest
  simp only [sourceRow, bar, List.append_assoc, List.cons_append, List.nil_append]
  rw [visible_paint_parted (by decide), visible_paint_parted (by decide),
    visible_parted (by decide)]

theorem same_caretRow (d : Diagnostic) : SameInColour fun colour => d.caretRow colour := by
  refine ⟨d.markRow ++ ['\n'], fun colour rest => ?_⟩
  rw [visible_caretRow_append, List.append_assoc, List.singleton_append]

theorem same_render (d : Diagnostic) : SameInColour fun colour => d.render colour := by
  have before := (d.same_sourceRow (d.span.start.line - 1)).shown_if (1 < d.span.start.line)
  have this := d.same_sourceRow d.span.start.line
  have after := (d.same_sourceRow (d.span.start.line + 1)).shown_if
    (¬ (d.source.line (d.span.start.line + 1)).isEmpty)
  simp only [ite_not] at after
  exact ((((d.same_headRow.append d.same_pointerRow).append before).append this).append
    d.same_caretRow).append after

end Diagnostic

/-- Without style sequences a diagnostic in colour is what the one without colour is without them,
and it is that one itself if this holds no escape. -/
theorem colour_adds_only_sequences (d : Diagnostic) :
    Style.visible (d.render true) = Style.visible (d.render false) ∧
      ('\x1b' ∉ d.render false → Style.visible (d.render true) = d.render false) := by
  have same := d.same_render.visible_eq
  refine ⟨same, fun plain => ?_⟩
  have unchanged := Style.visible_append plain []
  rw [List.append_nil, Style.visible, List.append_nil] at unchanged
  rw [same, unchanged]

/-- A parenthesis that closes nothing, in a file without escapes. -/
theorem colour_adds_only_sequences_plain :
    let source : SourceFile := ⟨.file ⟨"BUILD.shi"⟩, "a = 1\nb ) 2\nc = 3\n"⟩
    let span := Span.across ⟨some source.path, 2, 3⟩ 1
    let d : Diagnostic := ⟨"unexpected token", source, span, .error⟩
    d.render true ≠ d.render false ∧ '\x1b' ∉ d.render false ∧
      Style.visible (d.render true) = d.render false := by
  intro source span d
  have plain : '\x1b' ∉ d.render false := by decide +kernel
  have coloured : d.render true ≠ d.render false := by decide +kernel
  exact ⟨coloured, plain, (colour_adds_only_sequences d).2 plain⟩

end ShiFormat
