import ShiFormat.Token

/-!
What the stages of a run tell about themselves, and how much of it a level lets through.
-/
namespace ShiFormat

inductive LogLevel where
  | error
  | warn
  | info
  | debug
  | trace
  deriving DecidableEq, Repr

namespace LogLevel

def name : LogLevel → String
  | .error => "ERROR"
  | .warn => "WARN"
  | .info => "INFO"
  | .debug => "DEBUG"
  | .trace => "TRACE"

/-- A higher number is said less often. -/
def rank : LogLevel → Nat
  | .error => 1
  | .warn => 2
  | .info => 3
  | .debug => 4
  | .trace => 5

end LogLevel

/-- The level up to which records are shown, if any are. -/
abbrev Verbosity : Type := Option LogLevel

namespace Verbosity

/-- Warnings are shown unasked, and each request for more adds a level. -/
def ofCount : Nat → Verbosity
  | 0 => some .warn
  | 1 => some .info
  | 2 => some .debug
  | _ => some .trace

/-- The verbosity of a level name, in any case. -/
def ofName? (name : List Char) : Option Verbosity :=
  match String.ofList (name.map Char.toLower) with
  | "off" => some none
  | "error" => some (some .error)
  | "warn" => some (some .warn)
  | "info" => some (some .info)
  | "debug" => some (some .debug)
  | "trace" => some (some .trace)
  | _ => none

def shows (v : Verbosity) (level : LogLevel) : Bool := v.any fun limit => level.rank ≤ limit.rank

end Verbosity

inductive Event where
  | sourceRead (path : Path) (bytes : Nat)
  | tokensRead (path : Path) (count : Nat)
  /-- A statement was chosen, by the kind after its identifier unless it is a condition. -/
  | statementStarted (location : Location) (continuation : Option TokenKind)
  | fileParsed (finish : Location) (statements : Nat)
  | statementMisplaced (nodeName : String)

structure LogRecord where
  level : LogLevel
  target : String
  text : String
  deriving DecidableEq, Repr

def Event.record : Event → LogRecord
  | .sourceRead path bytes => ⟨.info, "shinobi", s!"{path}: read {bytes} bytes"⟩
  | .tokensRead path count => ⟨.trace, "shinobi::frontend::lexer", s!"{path}: {count} tokens"⟩
  | .statementStarted location continuation =>
    let chosen := (continuation.map TokenKind.describe).getD "condition"
    ⟨.trace, "shinobi::frontend::parser", s!"statement at {location}: {chosen}"⟩
  | .fileParsed finish statements =>
    ⟨.debug, "shinobi::frontend::parser", s!"{finish}: parsed {statements} top-level statements"⟩
  | .statementMisplaced nodeName =>
    ⟨.warn, "shinobi::frontend::writer", s!"{nodeName} cannot appear inside an expression"⟩

namespace LogRecord

def padding (r : LogRecord) : List Char := List.replicate (5 - r.level.name.length) ' '

/-- A line of a text after its first is indented below the record it belongs to. -/
def indentBreaks : List Char → List Char
  | [] => []
  | '\n' :: rest => '\n' :: ' ' :: ' ' :: ' ' :: ' ' :: indentBreaks rest
  | c :: rest => c :: indentBreaks rest

/-- A record as a log shows it; level names are padded to the longest. -/
def line (r : LogRecord) : String :=
  s!"[{r.level.name}{String.ofList r.padding} {r.target}] " ++
    String.ofList (indentBreaks r.text.toList) ++ "\n"

end LogRecord

end ShiFormat
