import ShiFormat.Proofs.Faultless.Lexer
import ShiFormat.Proofs.Faultless.Outline
import ShiFormat.Proofs.Faultless.Regions
import ShiFormat.Proofs.Faultless.Writer
import ShiFormat.Proofs.Lexing.Comments
import ShiFormat.Proofs.State.Calls

/-!
From the text of a build file to its tokens, its tree, its canonical text, its outline and the
diagnostics for it, nothing is at fault where the text fits and a level of indentation is narrow
enough for the padding of every line. The places of tokens and errors are places of the text, so
each of them is a word with room for the columns that it covers.
-/
namespace ShiFormat

/-- The place is roomy, and the column behind the token is a word. -/
structure Token.Roomy (t : Token) : Prop where
  place : t.location.Roomy
  width : t.location.column + max t.value.length 1 < wordLimit

def SourceError.Roomy : SourceError → Prop
  | .unexpectedToken token _ => token.Roomy
  | error => error.location.Roomy

theorem SourceError.Roomy.location {error : SourceError} (roomy : error.Roomy) :
    error.location.Roomy := by
  cases error with
  | unexpectedToken token expected => exact Token.Roomy.place roomy
  | _ => exact roomy

section
variable {path : Path} {text before rest : List Char} {tokens : List Token} {error : SourceError}

theorem Fits.roomy (fits : Fits text) (front : before <+: text) (path : Path) :
    (placeAfter path before).Roomy :=
  ⟨(fits before front).1, (fits before front).2⟩

theorem Reached.roomy (fits : Fits text) (h : Reached path text tokens before rest) :
    ∀ t ∈ tokens, t.Roomy := by
  induction h with
  | start => simp
  | @token tokens before gap value rest kind reached blank longest ih =>
    have split := reached.split
    rw [List.forall_mem_append, List.forall_mem_singleton]
    refine ⟨ih, fits.roomy ⟨value ++ rest, by rw [split, List.append_assoc]⟩ path, ?_⟩
    have behind := (fits (before ++ gap ++ value) ⟨rest, by simp [split]⟩).2
    have positive := List.length_pos_iff.mpr longest.token.begins.ne_nil
    rw [columnAfter_append longest.token.plain] at behind
    simp only [placeAfter, String.length_ofList]
    omega

theorem Refuses.roomy (fits : Fits text) (split : text = before ++ rest)
    (h : Refuses path before rest error) : error.Roomy := by
  cases h with
  | stray other => exact fits.roomy ⟨_, split.symm⟩ path
  | @unclosedLine body more plain => exact fits.roomy ⟨'\n' :: more, by simp [split]⟩ path
  | unclosedText plain => exact fits.roomy ⟨[], by simp [split]⟩ path

end

section
variable {path : Path} {text : String} {tokens : List Token} {error : SourceError}

theorem tokens_roomy (fits : Fits text.toList) (read : tokenize path text = .ok tokens) :
    ∀ t ∈ tokens, t.Roomy := by
  obtain ⟨cut, ⟨before, gap, reached, _⟩, rfl⟩ := cutUp_of_tokenize read
  have finish := fits.roomy (List.prefix_refl _) path
  rw [List.forall_mem_append, List.forall_mem_singleton]
  exact ⟨reached.roomy fits, finish, finish.column⟩

theorem finish_roomy (fits : Fits text.toList) (read : tokenize path text = .ok tokens) :
    (Parser.finishOf tokens).Roomy := by
  obtain ⟨cut, _, rfl⟩ := cutUp_of_tokenize read
  rw [finishOf_end]
  exact fits.roomy (List.prefix_refl _) path

theorem lexer_error_roomy (fits : Fits text.toList) (refused : tokenize path text = .error error) :
    error.Roomy := by
  obtain ⟨tokens, before, gap, rest, reached, _, _, _, _, wrong⟩ := stuck_of_tokenize refused
  exact wrong.roomy fits (by rw [reached.split, List.append_assoc])

theorem Window.Blames.roomy {w : Window} (tokens : ∀ t ∈ w.tokens, t.Roomy)
    (finish : w.finish.Roomy) (blames : w.Blames error) : error.Roomy := by
  have known {location : Location} (knows : w.Knows location) : location.Roomy := by
    rcases knows with rfl | ⟨t, member, rfl⟩
    · exact finish
    · exact (tokens t member).place
  cases error with
  | unexpectedToken t expected => exact tokens t blames.1
  | unexpectedSymbol => exact blames.elim
  | _ => exact known blames

/-- A call fails at a token of its window or at a place that the window knows. -/
theorem Parser.error_roomy {p : Parser} {w : Window} {s : Stand} (stands : p.StandsAt w s)
    (tokens : ∀ t ∈ w.tokens, t.Roomy) (finish : w.finish.Roomy)
    (refused : p.parse.1 = .error error) : error.Roomy := by
  obtain ⟨tells, _, blames⟩ := Machine.listing_agrees stands
  rw [← stands.finish, ← stands.rest] at tells blames
  rw [parse_body] at refused
  cases reply : p.body with
  | failed failure rest =>
    rw [reply] at refused
    cases refused
    exact (blames failure rest reply).roomy tokens finish
  | ok nodes rest =>
    rw [show Parse.listing _ _ p.finish p.rest = _ from reply] at tells
    rw [reply] at refused
    cases rest with
    | nil => cases refused
    | cons t more =>
      cases refused
      have found : (w.unread _)[0]? = some t := congrArg (·[0]?) tells.2.2
      exact tokens t (Window.mem_of_unread found)

theorem parser_error_roomy (fits : Fits text.toList) (read : tokenize path text = .ok tokens)
    (refused : parseTokens tokens = .error error) : error.Roomy :=
  Parser.error_roomy (standsAfter tokens 0)
    (fun t member => tokens_roomy fits read t (List.mem_of_mem_filter member))
    (finish_roomy fits read) refused

end

namespace Checked

/-- The region of an error and the diagnostic for it are found without a fault. -/
structure Reports (colour : Bool) (s : SourceFile) (error : SourceError) : Prop where
  span : errorSpan error = .ok error.span
  diagnostic : render colour (Diagnostic.ofError s error) =
    .ok ((Diagnostic.ofError s error).render colour)

theorem errorSpan_ok {error : SourceError} (roomy : error.Roomy) :
    errorSpan error = .ok error.span := by
  cases error with
  | unexpectedToken token expected => exact tokenSpan_ok (Token.Roomy.width roomy)
  | _ => exact singleColumn_ok roomy

theorem reports (colour : Bool) (s : SourceFile) {error : SourceError} (roomy : error.Roomy) :
    Reports colour s error where
  span := errorSpan_ok roomy
  diagnostic := by
    have start : (Diagnostic.ofError s error).span.start = error.location := by
      cases error <;> rfl
    exact render_ok colour (by rw [start]; exact roomy.location.line)

end Checked

/-- Whatever the text is, its tokens, its tree and its outline are found without a fault, and so are
the regions and the diagnostics for what is wrong with it or warned of. The canonical text is where
no line has more padding than there can be. -/
theorem pipeline_faultless (s : SourceFile) (fits : Fits s.content.toList) (width : Nat)
    (colour : Bool) :
    Checked.tokenize s.path s.content = (tokenize s.path s.content).mapError .refused ∧
    (∀ error, tokenize s.path s.content = .error error → Checked.Reports colour s error) ∧
    ∀ tokens, tokenize s.path s.content = .ok tokens →
      (∀ t ∈ tokens, Checked.tokenSpan t = .ok t.span) ∧
      (∀ comment ∈ firstComment? tokens, Checked.render colour (Diagnostic.ofComment s comment) =
        .ok ((Diagnostic.ofComment s comment).render colour)) ∧
      (Machine.parse (Window.ofTokens tokens) ⟨0, 0⟩).result =
        (parseTokens tokens).mapError .refused ∧
      (∀ error, parseTokens tokens = .error error → Checked.Reports colour s error) ∧
      ∀ tree, parseTokens tokens = .ok tree →
        Checked.Formats width tree ∧
        ∀ printer limit, Checked.print printer limit tree = .ok (printer.print limit tree) := by
  refine ⟨Checked.tokenize_ok s.path fits, fun error refused =>
    Checked.reports colour s (lexer_error_roomy fits refused), fun tokens read => ?_⟩
  have roomy := tokens_roomy fits read
  refine ⟨fun t member => Checked.tokenSpan_ok (roomy t member).width, ?_,
    (Machine.parse_calls (standsAfter tokens 0)).same, fun error refused =>
    Checked.reports colour s (parser_error_roomy fits read refused), fun tree accepted => ?_⟩
  · intro comment found
    have member := List.mem_of_find?_eq_some found
    exact Checked.render_ok colour (roomy comment member).place.line
  · have accepted : parse s.path s.content = .ok tree := by rw [parse, read]; exact accepted
    exact ⟨Checked.formats accepted width, fun printer limit =>
      Checked.print_ok printer limit tree⟩

/-- Two lines with a comment, and letters of two bytes in it and in a string. -/
theorem pipeline_faultless_two_lines :
    let s : SourceFile := ⟨.file ⟨"BUILD.shi"⟩, "x = [\"é\"] # π\nf(!a) \x7b\x7d"⟩
    Fits s.content.toList ∧ ∃ tokens tree, Checked.tokenize s.path s.content = .ok tokens ∧
      (Machine.parse (Window.ofTokens tokens) ⟨0, 0⟩).result = .ok tree ∧
      Checked.format 4 tree = .ok (tree.format 4) ∧
      Checked.print .fresh (some 7) tree = .ok (OutlinePrinter.fresh.print (some 7) tree) := by
  intro s
  have fits : Fits s.content.toList := fits_of_short (by decide)
  obtain ⟨tree, accepted, _⟩ :=
    accepted_of_check s.path s.content (fun _ => true) (by decide +kernel)
  obtain ⟨lexed, _, onward⟩ := pipeline_faultless s fits 4 true
  cases read : tokenize s.path s.content with
  | error cause =>
    rw [parse, read] at accepted
    cases accepted
  | ok tokens =>
    obtain ⟨_, _, parsed, _, done⟩ := onward tokens read
    have accepted : parseTokens tokens = .ok tree := by rwa [parse, read] at accepted
    obtain ⟨formats, printed⟩ := done tree accepted
    rw [read] at lexed
    rw [accepted] at parsed
    exact ⟨fits, tokens, tree, lexed, parsed, formats.narrow (by decide), printed _ _⟩

/-- One nested line is at fault as soon as a level is wider than padding can be. -/
theorem wide_level_at_fault :
    let text := "f(){a=1}"
    Fits text.toList ∧ ∃ tree, parse ⟨"BUILD.shi"⟩ text = .ok tree ∧
      Checked.format 0x10000 tree = Checked.fault .padding := by
  intro text
  obtain ⟨tree, accepted, wide⟩ :=
    accepted_of_check ⟨"BUILD.shi"⟩ text (Node.overpadded 0x10000) (by decide +kernel)
  exact ⟨fits_of_short (by decide), tree, accepted, if_pos wide⟩

end ShiFormat
