import ShiFormat.Command.Run
import ShiFormat.Proofs.Command.Arguments

/-!
How much a run tells about itself has no part in what it does. Two command lines that differ only in
how often they ask to tell more are read as the same request otherwise, and two runs of one request
differ only on standard error, whatever their verbosity, their log setting and their colour.
-/
namespace ShiFormat

/-- The arguments that ask to tell more, once or several times, and for nothing else. -/
inductive AsksForMore : String → Prop where
  | long : AsksForMore "--verbose"
  | short (count : Nat) : AsksForMore (String.ofList ('-' :: List.replicate (count + 1) 'v'))

/-- Two command lines that differ only in how often they ask to tell more. The value of `--indent`
asks for nothing, nor does what stands behind `--`. -/
inductive DifferInVerbosity : List String → List String → Prop where
  | same (line : List String) : DifferInVerbosity line line
  | more {argument : String} {line line' : List String} (asks : AsksForMore argument)
    (rest : DifferInVerbosity line line') : DifferInVerbosity (argument :: line) line'
  | fewer {argument : String} {line line' : List String} (asks : AsksForMore argument)
    (rest : DifferInVerbosity line line') : DifferInVerbosity line (argument :: line')
  | letters {first first' : Char} {letters letters' : List Char} {line line' : List String}
    (short : first ≠ '-' ∧ first' ≠ '-')
    (others : (first :: letters).filter (· != 'v') = (first' :: letters').filter (· != 'v'))
    (rest : DifferInVerbosity line line') :
    DifferInVerbosity (String.ofList ('-' :: first :: letters) :: line)
      (String.ofList ('-' :: first' :: letters') :: line')
  | width (value : String) {line line' : List String} (rest : DifferInVerbosity line line') :
    DifferInVerbosity ("--indent" :: value :: line) ("--indent" :: value :: line')
  | argument {argument : String} {line line' : List String}
    (alone : argument ≠ "--indent" ∧ argument ≠ "--") (rest : DifferInVerbosity line line') :
    DifferInVerbosity (argument :: line) (argument :: line')

namespace Arguments

def quiet (a : Arguments) : Arguments := { a with verbosity := 0 }

/-- Read alike, apart from the requests to tell more. -/
def Alike (x y : Except Request Arguments) : Prop := x.map quiet = y.map quiet

variable {a b : Arguments} {x y : Except Request Arguments}

theorem alike_ok (same : a.quiet = b.quiet) : Alike (.ok a) (.ok b) := congrArg Except.ok same

theorem Alike.bind {next next' : Arguments → Except Request Arguments} (here : Alike x y)
    (later : ∀ c d : Arguments, c.quiet = d.quiet → Alike (next c) (next' d)) :
    Alike (x.bind next) (y.bind next') := by
  cases x with
  | error request =>
    cases y with
    | error request' => exact here
    | ok d => cases here
  | ok c =>
    cases y with
    | error request' => cases here
    | ok d => exact later c d (Except.ok.inj here)

theorem eq_of_quiet (same : a.quiet = b.quiet) : b = { a with verbosity := b.verbosity } := by
  cases a
  cases b
  cases same
  rfl

theorem addSwitch_alike (same : a.quiet = b.quiet) (switch : Switch) :
    Alike (a.addSwitch switch) (b.addSwitch switch) := by
  rw [eq_of_quiet same]
  cases switch with
  | lex | parse | write =>
    simp only [addSwitch]
    split <;> rfl
  | verbose | version | help => rfl

theorem addShort_alike (same : a.quiet = b.quiet) (letter : Char) :
    Alike (a.addShort letter) (b.addShort letter) := by
  unfold addShort
  split
  · exact addSwitch_alike same _
  · rfl

theorem addWidth_alike (same : a.quiet = b.quiet) (text : List Char) :
    Alike (a.addWidth text) (b.addWidth text) := by
  rw [eq_of_quiet same]
  unfold addWidth
  cases a.width <;> cases width? text <;> rfl

theorem addFile_alike (same : a.quiet = b.quiet) (text : String) :
    Alike (a.addFile text) (b.addFile text) := by
  rw [eq_of_quiet same]
  unfold addFile
  split <;> rfl

theorem readFiles_alike (same : a.quiet = b.quiet) (files : List String) :
    Alike (a.readFiles files) (b.readFiles files) := by
  induction files generalizing a b with
  | nil => exact alike_ok same
  | cons file files ih => exact (addFile_alike same file).bind fun _ _ same => ih same

/-- Short options are read as they are without `v`. -/
theorem addShorts_filter (same : a.quiet = b.quiet) (letters : List Char) :
    Alike (letters.foldlM addShort a) ((letters.filter (· != 'v')).foldlM addShort b) := by
  induction letters generalizing a b with
  | nil => exact alike_ok same
  | cons letter letters ih =>
    by_cases more : letter = 'v'
    · subst more
      exact ih same
    · rw [List.filter_cons_of_pos (by simpa using more)]
      exact (addShort_alike same letter).bind fun _ _ same => ih same

theorem addShorts_alike (same : a.quiet = b.quiet) {letters letters' : List Char}
    (others : letters.filter (· != 'v') = letters'.filter (· != 'v')) :
    Alike (letters.foldlM addShort a) (letters'.foldlM addShort b) :=
  (addShorts_filter same letters).trans (others ▸ (addShorts_filter rfl letters').symm)

/-- What was asked before has no part in how the rest of a line is read. -/
theorem read_alike {a b : Arguments} (same : a.quiet = b.quiet) :
    (line : List String) → Alike (a.read line) (b.read line)
  | [] => by
    rw [read, read]
    exact alike_ok same
  | argument :: more => by
    rw [read, read]
    split
    · exact readFiles_alike same more
    · simp only
      split
      · split
        · exact (addWidth_alike same _).bind fun _ _ same => read_alike same _
        · split
          · rfl
          · exact (addWidth_alike same _).bind fun _ _ same => read_alike same _
        · rfl
      · split
        · exact (addSwitch_alike same _).bind fun _ _ same => read_alike same more
        · rfl
    · exact (addShorts_alike same rfl).bind fun _ _ same => read_alike same more
    · exact (addFile_alike same argument).bind fun _ _ same => read_alike same more
termination_by line => line.length

/-- An argument other than `--` that takes no value from the next one is read by itself. -/
theorem read_cons {argument : String} (alone : argument ≠ "--indent" ∧ argument ≠ "--")
    (line : List String) :
    a.read (argument :: line) = (a.read [argument]).bind fun a => a.read line := by
  have nothing (x : Except Request Arguments) : (x.bind fun a => a.read []) = x := by
    cases x <;> simp [Except.bind, read]
  rw [read, read]
  split
  · next dashes =>
    exact absurd (String.toList_injective dashes) alone.2
  · next long solid shape =>
    simp only
    split
    · next indent =>
      cases valued : (long.dropWhile (· != '=')).tail? with
      | some text => simp only [nothing]
      | none =>
        rw [whole_name valued] at indent
        refine absurd (String.toList_injective ?_) alone.1
        rw [shape, ← String.toList_ofList (l := long), indent]
        rfl
    · split
      · simp only [nothing]
      · rfl
  · simp only [nothing]
  · simp only [nothing]

theorem read_indent (value : String) (line : List String) :
    a.read ("--indent" :: value :: line) =
      if looksLikeOption value.toList then .error .usageFault
      else (a.addWidth value.toList).bind fun a => a.read line := by
  rw [read]
  rfl

theorem read_verbose (line : List String) :
    a.read ("--verbose" :: line) = { a with verbosity := a.verbosity + 1 }.read line := by
  rw [read]
  rfl

theorem read_more {argument : String} (asks : AsksForMore argument) (line : List String) :
    Alike (a.read (argument :: line)) (a.read line) := by
  cases asks with
  | long =>
    rw [read_verbose]
    exact read_alike (by rfl) line
  | short count =>
    have others : (List.replicate (count + 1) 'v').filter (· != 'v') = [].filter (· != 'v') := by
      simp
    rw [List.replicate_succ] at others ⊢
    rw [read_shorts a (by decide)]
    exact (addShorts_alike rfl others).bind fun _ _ same => read_alike same line

/-- The requests to tell more stand anywhere and change nothing else that is read. -/
theorem read_differing {line line' : List String} (differ : DifferInVerbosity line line')
    (same : a.quiet = b.quiet) : Alike (a.read line) (b.read line') := by
  induction differ generalizing a b with
  | same line => exact read_alike same line
  | more asks _ ih => exact (read_more asks _).trans (ih same)
  | fewer asks _ ih => exact (ih same).trans (read_more asks _).symm
  | letters short others _ ih =>
    rw [read_shorts a short.1, read_shorts b short.2]
    exact (addShorts_alike same others).bind fun _ _ => ih
  | width value _ ih =>
    rw [read_indent, read_indent]
    split
    · rfl
    · exact (addWidth_alike same value.toList).bind fun _ _ => ih
  | argument alone _ ih =>
    rw [read_cons (a := a) alone, read_cons (a := b) alone]
    exact (read_alike same _).bind fun _ _ => ih

end Arguments

def Options.quiet (o : Options) : Options := { o with verbosity := 0 }

/-- The request, without how much is to be told. -/
def Request.quiet : Request → Request
  | .run o => .run o.quiet
  | request => request

theorem Arguments.request_quiet (a : Arguments) : a.quiet.request = a.request.quiet := by
  unfold Arguments.request
  simp only [quiet]
  split
  · rfl
  · rw [apply_ite Request.quiet]
    rfl

theorem request_differing {arguments arguments' : List String}
    (differ : DifferInVerbosity arguments arguments') :
    (Request.ofArguments arguments).quiet = (Request.ofArguments arguments').quiet := by
  have alike : Arguments.Alike (Arguments.read {} arguments) (Arguments.read {} arguments') :=
    Arguments.read_differing differ rfl
  unfold Request.ofArguments
  cases first : Arguments.read {} arguments with
  | error request =>
    cases second : Arguments.read {} arguments' with
    | error request' =>
      rw [first, second] at alike
      rw [Except.error.inj alike]
    | ok b =>
      rw [first, second] at alike
      cases alike
  | ok a =>
    cases second : Arguments.read {} arguments' with
    | error request' =>
      rw [first, second] at alike
      cases alike
    | ok b =>
      rw [first, second] at alike
      rw [← Arguments.request_quiet, ← Arguments.request_quiet, Except.ok.inj alike]

/-- What a run leaves apart from standard error. -/
def Outcome.muted (o : Outcome) : Outcome := { o with stderr := "" }

/-- The surroundings of a run that tells nothing more. -/
def Environment.plain : Environment := ⟨false, none⟩

namespace Outcome

@[simp]
theorem rejected_muted (colour : Bool) (source : SourceFile) (error : SourceError)
    (log : String) : (rejected colour source error log).muted = ⟨1, "", "", none⟩ := rfl

@[simp]
theorem printed_muted (stdout stderr : String) :
    (printed stdout stderr).muted = ⟨0, stdout, "", none⟩ := rfl

theorem delivered_muted (o : Options) (text stderr : String) :
    (delivered o text stderr).muted =
      if o.write then
        if o.input.isStandardInput then ⟨1, "", "", none⟩ else ⟨0, "", "", some text⟩
      else ⟨0, text, "", none⟩ := by
  unfold delivered
  split
  · split <;> rfl
  · rfl

end Outcome

/-- Every exit of a run carries its log on standard error only. -/
theorem SourceFile.process_quiet (s : SourceFile) (o : Options) (e : Environment) :
    (s.process o e).muted = (s.process o.quiet .plain).muted := by
  simp only [process, show o.quiet.mode = o.mode from rfl]
  cases tokenize s.path s.content with
  | error error => exact Outcome.rejected_muted _ _ _ _
  | ok tokens =>
    by_cases lex : o.mode = .lex
    · simp only [lex, ↓reduceIte, Outcome.printed_muted]
    · simp only [lex, ↓reduceIte]
      cases (Parser.ofTokens tokens).parse.1 with
      | error error => exact Outcome.rejected_muted _ _ _ _
      | ok tree =>
        by_cases parse : o.mode = .parse
        · simp only [parse, ↓reduceIte, Outcome.printed_muted]
        · simp only [parse, ↓reduceIte, Outcome.delivered_muted, Options.quiet]

theorem Options.execute_quiet (o : Options) (e : Environment)
    (bytes : Except FileFault ByteArray) :
    (o.execute e bytes).muted = (o.quiet.execute .plain bytes).muted := by
  unfold execute
  cases bytes.bind readText with
  | error fault => rfl
  | ok text => exact SourceFile.process_quiet _ o e

theorem Request.outcome_quiet (r : Request) (e : Environment)
    (read : SourceName → Except FileFault ByteArray) :
    (r.outcome e read).muted = (r.quiet.outcome .plain read).muted := by
  cases r with
  | usageFault | version | help => rfl
  | run o => exact o.execute_quiet e (read o.input)

theorem Request.file?_quiet (r : Request) : r.quiet.file? = r.file? := by
  cases r <;> rfl

/-- Two runs that differ only in how often they are asked to tell more, in what the log setting says
and in colour end with one exit status, print one standard output and leave one set of files. -/
theorem verbosity_does_not_interfere {arguments arguments' : List String}
    (differ : DifferInVerbosity arguments arguments') (e e' : Environment) (input : ByteArray)
    (files : FileSet) :
    let run := runCommand arguments e input files
    let run' := runCommand arguments' e' input files
    run.1.status = run'.1.status ∧ run.1.stdout = run'.1.stdout ∧ run.2 = run'.2 := by
  have asked : (Request.ofArguments arguments).quiet = (Request.ofArguments arguments').quiet :=
    request_differing differ
  have file : (Request.ofArguments arguments).file? = (Request.ofArguments arguments').file? := by
    rw [← Request.file?_quiet, asked, Request.file?_quiet]
  have muted (read : SourceName → Except FileFault ByteArray) :
      ((Request.ofArguments arguments).outcome e read).muted =
        ((Request.ofArguments arguments').outcome e' read).muted := by
    rw [Request.outcome_quiet, asked, ← Request.outcome_quiet]
  have status := fun read => congrArg Outcome.status (muted read)
  have stdout := fun read => congrArg Outcome.stdout (muted read)
  have written := fun read => congrArg Outcome.written (muted read)
  simp only [Outcome.muted] at status stdout written
  simp only [runCommand, file, written]
  split <;> exact ⟨status _, stdout _, rfl⟩

/-- Requests to tell more at the start, among other short options and before `--`, but not the value
of `--indent` nor the file behind `--`. -/
theorem verbosity_does_not_interfere_anywhere :
    let run := runCommand ["-vv", "-wv", "--indent", "2", "--verbose", "--", "-v"]
      ⟨true, some "trace"⟩ .empty [⟨⟨"-v"⟩, "if(a){f()}".toUTF8⟩]
    let run' := runCommand ["-w", "--indent", "2", "--", "-v"] ⟨false, some "off"⟩ .empty
      [⟨⟨"-v"⟩, "if(a){f()}".toUTF8⟩]
    run.1.status = run'.1.status ∧ run.1.stdout = run'.1.stdout ∧ run.2 = run'.2 := by
  have differ : DifferInVerbosity ["-vv", "-wv", "--indent", "2", "--verbose", "--", "-v"]
      ["-w", "--indent", "2", "--", "-v"] :=
    .more (.short 1) <| .letters ⟨by decide, by decide⟩ (by decide) <| .width "2" <|
      .more .long <| .same ["--", "-v"]
  exact verbosity_does_not_interfere differ _ _ _ _

end ShiFormat
