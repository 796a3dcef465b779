import ShiFormat.Command.Run
import ShiFormat.Proofs.Command.Arguments
import ShiFormat.Proofs.Command.Files
import ShiFormat.Proofs.Parsing.Acceptance

/-!
A run delivers one text as a whole, on standard output or into its file, or it changes nothing.
The text depends on the source and on what is asked of it, not on where it goes.
-/
namespace ShiFormat
open Outcome

/-- The text that is asked for, if the source has one. -/
def SourceFile.result? (s : SourceFile) (o : Options) : Option String :=
  match tokenize s.path s.content with
  | .error _ => none
  | .ok tokens =>
    if o.mode = .lex then some (String.join (tokens.map tokenLine))
    else match parseTokens tokens with
      | .error _ => none
      | .ok tree => some (if o.mode = .parse then tree.outlineText else (tree.format o.width).text)

namespace Outcome

/-- An exit status other than 0, with nothing printed and nothing to write back. -/
structure Refuses (outcome : Outcome) : Prop where
  failed : outcome.status ≠ 0
  silent : outcome.stdout = ""
  unwritten : outcome.written = none

theorem refuses_rejected (colour : Bool) (source : SourceFile) (error : SourceError)
    (log : String) : (rejected colour source error log).Refuses :=
  ⟨nofun, rfl, rfl⟩

theorem delivered_printed {o : Options} (unwritten : o.write = false) (text stderr : String) :
    delivered o text stderr = printed text stderr := by
  rw [delivered, unwritten]
  exact if_neg Bool.false_ne_true

theorem delivered_warned (o : Options) (warnings text stderr : String) :
    { delivered o text stderr with stderr := warnings ++ (delivered o text stderr).stderr } =
      delivered o text (warnings ++ stderr) := by
  unfold delivered
  split
  · split <;> simp [String.append_assoc]
  · rfl

end Outcome

theorem Options.unwritten {o : Options} (kept : o.write = true → o.mode = .format)
    (other : o.mode ≠ .format) : o.write = false :=
  Bool.eq_false_iff.mpr fun write => other (kept write)

theorem SourceFile.process_refuses {s : SourceFile} {o : Options} (e : Environment)
    (none : s.result? o = none) : (s.process o e).Refuses := by
  unfold result? parseTokens at none
  unfold process
  cases lexed : tokenize s.path s.content with
  | error error => exact refuses_rejected ..
  | ok tokens =>
    simp only [lexed] at none ⊢
    split at none
    · cases none
    · next other =>
      rw [if_neg other]
      cases parsed : (Parser.ofTokens tokens).parse.1 with
      | error error => exact refuses_rejected ..
      | ok tree =>
        rw [parsed] at none
        cases none

theorem SourceFile.process_delivers {s : SourceFile} {o : Options} (e : Environment)
    {text : String} (some : s.result? o = some text) (kept : o.write = true → o.mode = .format) :
    ∃ stderr, s.process o e = delivered o text stderr := by
  unfold result? parseTokens at some
  unfold process
  cases lexed : tokenize s.path s.content with
  | error error =>
    rw [lexed] at some
    cases some
  | ok tokens =>
    simp only [lexed] at some ⊢
    split at some
    · next lex =>
      cases some
      rw [if_pos lex]
      exact ⟨_, (delivered_printed (o.unwritten kept (by simp [lex])) _ _).symm⟩
    · next other =>
      rw [if_neg other]
      cases parsed : (Parser.ofTokens tokens).parse.1 with
      | error error =>
        rw [parsed] at some
        cases some
      | ok tree =>
        simp only [parsed, Option.some.injEq] at some ⊢
        subst some
        split
        · next parse =>
          exact ⟨_, (delivered_printed (o.unwritten kept (by simp [parse])) _ _).symm⟩
        · exact ⟨_, rfl⟩

/-- The text that is asked for of some bytes, if they have one. -/
def Options.result? (o : Options) (bytes : Except FileFault ByteArray) : Option String :=
  match bytes.bind readText with
  | .error _ => none
  | .ok text => (SourceFile.ofText o.input text).result? o

theorem Options.execute_refuses {o : Options} (e : Environment)
    {bytes : Except FileFault ByteArray} (none : o.result? bytes = none) :
    (o.execute e bytes).Refuses := by
  unfold result? at none
  unfold execute
  cases read : bytes.bind readText with
  | error fault => exact ⟨nofun, rfl, rfl⟩
  | ok text =>
    rw [read] at none
    obtain ⟨failed, silent, unwritten⟩ := SourceFile.process_refuses e none
    exact ⟨failed, silent, unwritten⟩

theorem Options.execute_delivers {o : Options} (e : Environment)
    {bytes : Except FileFault ByteArray} {text : String} (some : o.result? bytes = some text)
    (kept : o.write = true → o.mode = .format) :
    ∃ stderr, o.execute e bytes = delivered o text stderr := by
  unfold result? at some
  unfold execute
  cases read : bytes.bind readText with
  | error fault =>
    rw [read] at some
    cases some
  | ok content =>
    rw [read] at some
    obtain ⟨stderr, outcome⟩ := SourceFile.process_delivers e some kept
    refine ⟨String.join ((e.logFilter o.verbosity).2.map LogFilterFault.message) ++ stderr, ?_⟩
    simp only [outcome]
    exact delivered_warned ..

/-- The bytes can be read as text, the text can be cut into tokens, and these form a tree unless
only they are asked for. -/
def Options.Accepts (o : Options) (bytes : Except FileFault ByteArray) : Prop :=
  ∃ content text tokens, bytes = .ok content ∧ String.fromUTF8? content = some text ∧
    tokenize o.input.path (SourceFile.ofText o.input text).content = .ok tokens ∧
    (o.mode = .lex ∨ ∃ tree, parseTokens tokens = .ok tree)

theorem SourceFile.result?_isSome (s : SourceFile) (o : Options) :
    (s.result? o).isSome ↔ ∃ tokens, tokenize s.path s.content = .ok tokens ∧
      (o.mode = .lex ∨ ∃ tree, parseTokens tokens = .ok tree) := by
  unfold result?
  cases tokenize s.path s.content with
  | error error => simp
  | ok tokens =>
    by_cases lex : o.mode = .lex
    · simp [lex]
    · cases parsed : parseTokens tokens <;> simp [lex, parsed]

theorem Options.accepts_iff {o : Options} {bytes : Except FileFault ByteArray} :
    o.Accepts bytes ↔ ∃ text, o.result? bytes = some text := by
  rw [← Option.isSome_iff_exists]
  unfold Accepts result?
  cases bytes with
  | error fault => simp [Except.bind]
  | ok content =>
    cases read : String.fromUTF8? content with
    | none => simp [Except.bind, readText, read]
    | some text =>
      simp only [Except.bind, readText, read, SourceFile.result?_isSome]
      simp [SourceFile.path, SourceFile.ofText, read]

/-- What reading a source yields. -/
def FileSet.source (files : FileSet) (input : ByteArray) : SourceName → Except FileFault ByteArray
  | .standardInput => .ok input
  | .file path => (files.locate path).map FileEntry.bytes

theorem Options.Accepts.located {o : Options} {files : FileSet} {input : ByteArray} {path : Path}
    (accepted : o.Accepts (files.source input (.file path))) :
    ∃ target, files.locate path = .ok target := by
  obtain ⟨content, _, _, read, _⟩ := accepted
  rw [FileSet.source] at read
  cases found : files.locate path with
  | error fault =>
    rw [found] at read
    cases read
  | ok target => exact ⟨target, rfl⟩

section
variable {arguments : List String} {o : Options}
  (asked : Request.ofArguments arguments = .run o) (e : Environment) (input : ByteArray)
  (files : FileSet)
include asked

theorem runCommand_asked :
    runCommand arguments e input files =
      let outcome := o.execute e (files.source input o.input)
      match outcome.written, (Request.run o).file? with
      | some text, some path => (outcome, files.write path text.toUTF8)
      | _, _ => (outcome, files) := by
  rw [runCommand, asked]
  rfl

theorem runCommand_refused (refuses : (o.execute e (files.source input o.input)).Refuses) :
    runCommand arguments e input files =
      (o.execute e (files.source input o.input), files) := by
  rw [runCommand_asked asked]
  simp only [refuses.unwritten]

theorem runCommand_prints {text : String}
    (some : o.result? (files.source input o.input) = some text) (unwritten : o.write = false) :
    ∃ stderr, runCommand arguments e input files = (printed text stderr, files) := by
  obtain ⟨stderr, outcome⟩ := o.execute_delivers e some (by simp [unwritten])
  rw [delivered_printed unwritten] at outcome
  refine ⟨stderr, ?_⟩
  rw [runCommand_asked asked, outcome]
  rfl

theorem runCommand_writes {text : String}
    (some : o.result? (files.source input o.input) = some text) (write : o.write = true)
    {path : Path} (file : o.input = .file path) :
    ∃ stderr, runCommand arguments e input files =
      (⟨0, "", stderr, text⟩, files.write path text.toUTF8) := by
  obtain ⟨a, _, request⟩ := read_of_asked asked
  obtain ⟨stderr, outcome⟩ := o.execute_delivers e some (Arguments.mode_of_write request)
  refine ⟨stderr, ?_⟩
  rw [runCommand_asked asked, outcome]
  simp [delivered, write, file, Request.file?, SourceName.isStandardInput]

theorem execute_unwritable {text : String}
    (some : o.result? (files.source input o.input) = some text) (write : o.write = true)
    (standard : o.input = .standardInput) :
    (o.execute e (files.source input o.input)).Refuses := by
  obtain ⟨a, _, request⟩ := read_of_asked asked
  obtain ⟨stderr, outcome⟩ := o.execute_delivers e some (Arguments.mode_of_write request)
  rw [outcome, delivered, if_pos write, standard]
  exact ⟨nofun, rfl, rfl⟩

end

end ShiFormat
