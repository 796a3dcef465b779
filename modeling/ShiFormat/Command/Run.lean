import ShiFormat.Command.Files
import ShiFormat.Command.Options
import ShiFormat.Diagnostic
import ShiFormat.LogFilter
import ShiFormat.Outline
import ShiFormat.Rendering
import ShiFormat.Trace

/-!
A run of the formatter on one source: what it prints, what it writes back, and its exit status.
A run that fails prints nothing on standard output and writes nothing back.
-/
namespace ShiFormat

structure Environment where
  colour : Bool
  /-- A text that adjusts the log filter asked for by options. -/
  logSetting : Option String

/-- The log filter for a number of requests to tell more, and the faults of the setting. -/
def Environment.logFilter (e : Environment) (count : Nat) : LogFilter × List LogFilterFault :=
  let asked := LogFilter.ofVerbosity (Verbosity.ofCount count)
  match e.logSetting with
  | some text => asked.adjust text.toList
  | none => (asked, [])

structure Outcome where
  status : Nat
  stdout : String
  stderr : String
  /-- The new contents of the source, if it is written back. -/
  written : Option String
  deriving DecidableEq, Repr

namespace Outcome

def displayName : SourceName → String
  | .file path => path.text
  | .standardInput => "standard input"

/-- An error and the fault behind it. -/
def causedBy (error : String) (fault : FileFault) : String :=
  s!"Error: {error}\n\nCaused by:\n    {fault.message}\n"

def unreadable (name : SourceName) (fault : FileFault) : Outcome :=
  ⟨1, "", causedBy s!"failed to read {displayName name}" fault, none⟩

def unwritable (path : Path) (fault : FileFault) : Outcome :=
  ⟨1, "", causedBy s!"failed to write {path}" fault, none⟩

/-- The diagnostic of an error, and the failure it leads to. -/
def rejected (colour : Bool) (source : SourceFile) (error : SourceError) (log : String) :
    Outcome :=
  ⟨1, "", log ++ (Diagnostic.ofError source error).text colour ++
    s!"Error: could not format {source.path}\n", none⟩

def printed (stdout stderr : String) : Outcome := ⟨0, stdout, stderr, none⟩

def tokenLine (t : Token) : String := s!"{t.location}: {t.kind} {t}\n"

/-- The warning that a formatted file loses its comments. -/
def commentWarning (colour : Bool) (source : SourceFile) (tokens : List Token) : String :=
  match firstComment? tokens with
  | some comment => (Diagnostic.ofComment source comment).text colour
  | none => ""

/-- Prints a formatted text, or writes it back to a source that is a file. -/
def delivered (o : Options) (text stderr : String) : Outcome :=
  if o.write then
    if o.input.isStandardInput then
      ⟨1, "", stderr ++ "Error: standard input cannot be rewritten in place\n", none⟩
    else ⟨0, "", stderr, some text⟩
  else printed text stderr

end Outcome

open Outcome in
/-- The outcome of a run on a source that could be read. -/
def SourceFile.process (s : SourceFile) (o : Options) (e : Environment) : Outcome :=
  let shown := (e.logFilter o.verbosity).1.logText
  let readLog := shown [.sourceRead s.path s.content.utf8ByteSize]
  match tokenize s.path s.content with
  | .error error => rejected e.colour s error readLog
  | .ok tokens =>
    let tokenLog := readLog ++ shown [.tokensRead s.path tokens.length]
    if o.mode = .lex then printed (String.join (tokens.map tokenLine)) tokenLog
    else
      let parser := Parser.ofTokens tokens
      let parseLog := tokenLog ++ shown parser.events
      match parser.parse.1 with
      | .error error => rejected e.colour s error parseLog
      | .ok tree =>
        if o.mode = .parse then printed tree.outlineText parseLog
        else
          let rendering := tree.format o.width
          delivered o rendering.text
            (parseLog ++ commentWarning e.colour s tokens ++ shown rendering.events)

/-- The outcome of a run on the bytes of its source, or on the fault that kept them away. -/
def Options.execute (o : Options) (e : Environment) (bytes : Except FileFault ByteArray) :
    Outcome :=
  let warnings := String.join ((e.logFilter o.verbosity).2.map LogFilterFault.message)
  let outcome := match bytes.bind readText with
    | .error fault => Outcome.unreadable o.input fault
    | .ok text => (SourceFile.ofText o.input text).process o e
  { outcome with stderr := warnings ++ outcome.stderr }

def versionText : String := "shinobi 0.1.0\n"

def usageText : String :=
  "Formats shi build files.\n\n" ++
  "Usage: shinobi [OPTIONS] <FILE>\n\n" ++
  "Options:\n" ++
  "      --lex              Stop after lexing and print the tokens\n" ++
  "      --parse            Stop after parsing and print the syntax tree\n" ++
  "      --indent <INDENT>  Spaces per nesting level in the formatted output\n" ++
  "  -w, --write            Rewrite the file in place instead of printing it\n" ++
  "  -v, --verbose...       Increase logging verbosity\n" ++
  "  -h, --help             Print help\n" ++
  "  -V, --version          Print version\n"

/-- The outcome of a request, given what reading a source yields. -/
def Request.outcome (e : Environment) (read : SourceName → Except FileFault ByteArray) :
    Request → Outcome
  | .usageFault => ⟨2, "", usageText, none⟩
  | .version => Outcome.printed versionText ""
  | .help => Outcome.printed usageText ""
  | .run o => o.execute e (read o.input)

/-- The file a request reads, and the one it writes if it writes any. -/
def Request.file? : Request → Option Path
  | .run o => match o.input with
    | .file path => some path
    | .standardInput => none
  | _ => none

/-- The outcome of a command line, and the files afterwards. -/
def runCommand (arguments : List String) (e : Environment) (input : ByteArray) (files : FileSet) :
    Outcome × FileSet :=
  let request := Request.ofArguments arguments
  let outcome := request.outcome e fun
    | .standardInput => .ok input
    | .file path => (files.locate path).map FileEntry.bytes
  match outcome.written, request.file? with
  | some text, some path => (outcome, files.write path text.toUTF8)
  | _, _ => (outcome, files)

end ShiFormat
