import ShiFormat.Proofs.Canonical.Parsed
import ShiFormat.Proofs.Canonical.RoundTrip
import ShiFormat.Proofs.Command.AllOrNothing

/-!
Rewriting a file a second time leaves it as it is. The second run reads the canonical text that the
first one wrote: it asks for the same text again, or it is refused for its nesting and writes
nothing. A first run that fails leaves a file that fails again.
-/
namespace ShiFormat

theorem byteOrderMark_begins_nothing (path : Path) (rest : List Char) :
    ∃ error, tokenize path (String.ofList ('\ufeff' :: rest)) = .error error := by
  have stray : Lexeme.first ('\ufeff' :: rest) = .stray '\ufeff' := rfl
  have still : (Cursor.atStart ('\ufeff' :: rest)).skipBlanks.rest = '\ufeff' :: rest := by
    rw [Cursor.rest_skipBlanks]
    rfl
  rw [tokenize, String.toList_ofList]
  rw [← still] at stray
  exact ⟨_, tokensFrom_stray stray⟩

/-- A text that can be cut into tokens is the content of its file. -/
theorem SourceFile.ofText_of_read {path : Path} {text : String} {tokens : List Token}
    (read : tokenize path text = .ok tokens) (name : SourceName) :
    SourceFile.ofText name text = ⟨name, text⟩ := by
  have same : withoutByteOrderMark text.toList = text.toList := by
    unfold withoutByteOrderMark
    split
    · next rest marked =>
      obtain ⟨error, refused⟩ := byteOrderMark_begins_nothing path rest
      rw [← marked, String.ofList_toList, read] at refused
      cases refused
    · rfl
  rw [ofText, same, String.ofList_toList]

/-- Formatting asks for the canonical text of the tree. -/
theorem SourceFile.result?_format {s : SourceFile} {o : Options} (format : o.mode = .format) :
    s.result? o = (parse s.path s.content).toOption.map fun tree => (tree.format o.width).text := by
  rw [result?, parse]
  cases tokenize s.path s.content with
  | error error => rfl
  | ok tokens =>
    cases parsed : parseTokens tokens <;> simp [format, Except.bind, Except.toOption, parsed]

/-- The canonical text asks for itself, if it can be read. -/
theorem SourceFile.result?_again {tree : Node} (formed : tree.wellFormed) (name : SourceName)
    {o : Options} (format : o.mode = .format) {text : String}
    (some : (SourceFile.ofText name (tree.format o.width).text).result? o = some text) :
    text = (tree.format o.width).text := by
  obtain ⟨tokens, _, read, _⟩ := tree.format_derives formed o.width name.path
  rw [ofText_of_read read, result?_format format] at some
  have some : (parse name.path (tree.format o.width).text).toOption.map _ = _ := some
  rcases Nat.lt_or_ge nestingLimit tree.levels with deep | within
  · obtain ⟨location, refused⟩ := tree.parse_format_too_deep formed o.width name.path deep
    rw [refused] at some
    cases some
  · obtain ⟨again, accepted, same⟩ := tree.parse_format formed o.width name.path within
    rw [accepted] at some
    cases some
    exact congrArg Rendering.text (Node.format_of_unplaced same o.width)

theorem readText_toUTF8 (text : String) : readText text.toUTF8 = .ok text := by
  have decoded : String.fromUTF8? text.toUTF8 = some text := dif_pos (String.isValidUTF8 _)
  rw [readText, decoded]

/-- The text that was written asks for itself, if it can be read. -/
theorem Options.result?_again {o : Options} (format : o.mode = .format)
    {bytes : Except FileFault ByteArray} {text text' : String}
    (some : o.result? bytes = some text) (again : o.result? (.ok text.toUTF8) = Option.some text') :
    text' = text := by
  unfold result? at some again
  rw [show Except.bind (.ok text.toUTF8) readText = .ok text from readText_toUTF8 text] at again
  cases read : bytes.bind readText with
  | error fault =>
    rw [read] at some
    cases some
  | ok content =>
    rw [read] at some
    simp only [SourceFile.result?_format format, Option.map_eq_some_iff] at some
    obtain ⟨tree, accepted, rfl⟩ := some
    cases parsed : parse (SourceFile.ofText o.input content).path
        (SourceFile.ofText o.input content).content with
    | error error =>
      rw [parsed] at accepted
      cases accepted
    | ok found =>
      rw [parsed] at accepted
      cases accepted
      exact SourceFile.result?_again (wellFormed_of_parse parsed) o.input format again

/-- Only the mode, the width and the source of a run tell what it asks for. -/
theorem Options.result?_congr {o o' : Options} (mode : o'.mode = o.mode)
    (width : o'.width = o.width) (source : o'.input = o.input)
    (bytes : Except FileFault ByteArray) : o'.result? bytes = o.result? bytes := by
  simp only [result?, SourceFile.result?, mode, width, source]

namespace FileSet

theorem source_write {files : FileSet} {path : Path} {target : FileEntry}
    (found : files.locate path = .ok target) (bytes input : ByteArray) :
    (files.write path bytes).source input (.file path) = .ok bytes := by
  rw [source, locate_write found, found]
  simp [Except.map]

theorem write_eq_map {files : FileSet} {path : Path} {target : FileEntry}
    (found : files.locate path = .ok target) (bytes : ByteArray) :
    files.write path bytes = files.map fun entry =>
      if wayTo entry == wayTo target then { entry with bytes } else entry := by
  rw [write, found]

/-- Writing the same bytes once more changes nothing. -/
theorem write_write {files : FileSet} {path : Path} {target : FileEntry}
    (found : files.locate path = .ok target) (bytes : ByteArray) :
    (files.write path bytes).write path bytes = files.write path bytes := by
  have again : (files.write path bytes).locate path = .ok { target with bytes } := by
    rw [locate_write found, found]
    simp [Except.map]
  have kept (entry : FileEntry) : wayTo { entry with bytes } = wayTo entry := rfl
  rw [write_eq_map again, write_eq_map found, List.map_map]
  refine List.map_congr_left fun entry _ => ?_
  by_cases same : wayTo entry == wayTo target
  · simp only [Function.comp_apply, kept, if_pos same]
  · simp only [Function.comp_apply, kept, if_neg same]

end FileSet

section
variable {arguments : List String} {o : Options}
  (asked : Request.ofArguments arguments = .run o) (e : Environment) (input : ByteArray)
  (files : FileSet)
include asked

/-- A run that could write only what its file holds changes no file. -/
theorem runCommand_idle
    (idle : ∀ path text, o.input = .file path →
      o.result? (files.source input o.input) = some text → files.write path text.toUTF8 = files) :
    (runCommand arguments e input files).2 = files := by
  cases result : o.result? (files.source input o.input) with
  | none => rw [runCommand_refused asked e input files (o.execute_refuses e result)]
  | some text =>
    cases write : o.write with
    | false =>
      obtain ⟨stderr, ran⟩ := runCommand_prints asked e input files result write
      rw [ran]
    | true =>
      cases source : o.input with
      | standardInput =>
        have refuses := execute_unwritable asked e input files result write source
        rw [runCommand_refused asked e input files refuses]
      | file path =>
        obtain ⟨stderr, ran⟩ := runCommand_writes asked e input files result write source
        rw [ran]
        exact idle path text source result

end

/-- Two runs that rewrite the same file with the same width leave all files as the first one did,
whether it wrote the file or failed, and whatever becomes of the second. -/
theorem rewriting_again_changes_nothing {arguments arguments' : List String} {o o' : Options}
    (asked : Request.ofArguments arguments = .run o)
    (asked' : Request.ofArguments arguments' = .run o') (write : o.write = true)
    (write' : o'.write = true) (source : o'.input = o.input) (width : o'.width = o.width)
    (e e' : Environment) (input input' : ByteArray) (files : FileSet) :
    let once := (runCommand arguments e input files).2
    (runCommand arguments' e' input' once).2 = once := by
  intro once
  obtain ⟨_, _, request⟩ := read_of_asked asked
  obtain ⟨_, _, request'⟩ := read_of_asked asked'
  have format := Arguments.mode_of_write request write
  have format' := Arguments.mode_of_write request' write'
  have same := Options.result?_congr (format'.trans format.symm) width source
  refine runCommand_idle asked' e' input' once fun path text' file again => ?_
  rw [file] at source
  rw [same, file] at again
  cases result : o.result? (files.source input o.input) with
  | none =>
    have unchanged : once = files := by
      change (runCommand arguments e input files).2 = files
      rw [runCommand_refused asked e input files (o.execute_refuses e result)]
    rw [unchanged] at again
    rw [← source] at result
    exact absurd (again.symm.trans result) nofun
  | some text =>
    obtain ⟨stderr, ran⟩ := runCommand_writes asked e input files result write source.symm
    have wrote : once = files.write path text.toUTF8 := by
      change (runCommand arguments e input files).2 = files.write path text.toUTF8
      rw [ran]
    obtain ⟨target, found⟩ : ∃ target, files.locate path = .ok target := by
      rw [← source] at result
      exact (Options.accepts_iff.mpr ⟨text, result⟩).located
    rw [wrote, FileSet.source_write found] at again
    rw [wrote, Options.result?_again format result again]
    exact FileSet.write_write found text.toUTF8

/-- A file with a byte order mark, a comment and parentheses that the canonical text leaves out,
rewritten by two spellings of one command line. -/
theorem rewriting_again_changes_nothing_marked :
    let text := "\ufeffa = (!b) # c\r\nif (a) \x7bf()\x7d"
    let files : FileSet := [⟨⟨"a.shi"⟩, text.toUTF8⟩]
    let once := (runCommand ["-w", "--indent", "4", "a.shi"] ⟨false, none⟩ .empty files).2
    once.source .empty (.file ⟨"a.shi"⟩) = .ok "a = !b\nif (a) \x7b\n    f()\n\x7d\n".toUTF8 ∧
      (runCommand ["--indent=4", "-vw", "--", "a.shi"] ⟨true, some "off"⟩ .empty once).2 = once := by
  intro text files once
  have asked : Request.ofArguments ["-w", "--indent", "4", "a.shi"] =
      .run ⟨.format, 4, true, 0, .file ⟨"a.shi"⟩⟩ :=
    asked_of_read { write := true, width := some 4, file := some "a.shi" } (by decide +kernel) rfl
  have asked' : Request.ofArguments ["--indent=4", "-vw", "--", "a.shi"] =
      .run ⟨.format, 4, true, 1, .file ⟨"a.shi"⟩⟩ :=
    asked_of_read { write := true, verbosity := 1, width := some 4, file := some "a.shi" }
      (by decide +kernel) rfl
  refine ⟨?_, rewriting_again_changes_nothing asked asked' rfl rfl rfl rfl
    ⟨false, none⟩ ⟨true, some "off"⟩ .empty .empty files⟩
  have result : Options.result? ⟨.format, 4, true, 0, .file ⟨"a.shi"⟩⟩ (.ok text.toUTF8) =
      some "a = !b\nif (a) \x7b\n    f()\n\x7d\n" := by
    rw [Options.result?, show Except.bind (.ok text.toUTF8) readText = _ from readText_toUTF8 text]
    decide +kernel
  have read : files.source .empty (.file ⟨"a.shi"⟩) = .ok text.toUTF8 :=
    ok_of_toOption (by decide +kernel)
  rw [← read] at result
  obtain ⟨stderr, ran⟩ := runCommand_writes asked ⟨false, none⟩ .empty files result rfl rfl
  obtain ⟨target, found⟩ := (Options.accepts_iff.mpr ⟨_, result⟩).located
  change FileSet.source (runCommand _ _ _ _).2 _ _ = _
  rw [ran]
  exact FileSet.source_write found _ _

end ShiFormat
