import ShiFormat.SourceFile
import ShiFormat.SourceError
import ShiFormat.Style

/-!
Messages about a region of a build file, shown with the lines around it and carets under it.
-/
namespace ShiFormat

inductive Severity where
  | error
  | warning
  deriving DecidableEq, Repr

namespace Severity

def style : Severity → Style
  | .error => .error
  | .warning => .warning

def name : Severity → String
  | .error => "error"
  | .warning => "warning"

def label (colour : Bool) (s : Severity) : List Char := s.style.paint colour s.name.toList

end Severity

structure Diagnostic where
  message : String
  source : SourceFile
  span : Span
  severity : Severity

namespace Diagnostic

/-- Right-aligned in four columns. -/
def padNumber (n : Nat) : List Char :=
  let digits := (toString n).toList
  List.replicate (4 - digits.length) ' ' ++ digits

def bar (colour : Bool) : List Char := Style.frame.paint colour ['|']

def headRow (colour : Bool) (d : Diagnostic) : List Char :=
  d.severity.label colour ++ ':' :: ' ' :: Style.bold.paint colour d.message.toList ++ ['\n']

def pointerRow (colour : Bool) (d : Diagnostic) : List Char :=
  ' ' :: Style.frame.paint colour ['-', '-', '>'] ++
    ' ' :: Style.place.paint colour (toString d.span.start).toList ++ ['\n']

def sourceRow (colour : Bool) (d : Diagnostic) (line : Nat) : List Char :=
  Style.place.paint colour (padNumber line) ++ ' ' :: bar colour ++
    ' ' :: d.source.line line ++ ['\n']

def caretRow (colour : Bool) (d : Diagnostic) : List Char :=
  List.replicate 5 ' ' ++ bar colour ++
    ' ' :: List.replicate (d.span.start.column - 1) ' ' ++
    d.severity.style.paint colour (List.replicate (max d.span.width 1) '^') ++ ['\n']

/-- The line before is shown if there is one, the line after if it is not empty. -/
def render (colour : Bool) (d : Diagnostic) : List Char :=
  let line := d.span.start.line
  d.headRow colour ++ d.pointerRow colour ++
    (if 1 < line then d.sourceRow colour (line - 1) else []) ++
    d.sourceRow colour line ++ d.caretRow colour ++
    (if (d.source.line (line + 1)).isEmpty then [] else d.sourceRow colour (line + 1))

def text (colour : Bool) (d : Diagnostic) : String := String.ofList (d.render colour)

def ofError (source : SourceFile) (error : SourceError) : Diagnostic :=
  ⟨error.message, source, error.span, .error⟩

/-- The warning for the first comment of a file, which formatting drops. -/
def ofComment (source : SourceFile) (comment : Token) : Diagnostic :=
  ⟨"comments are not kept by the formatter", source, comment.span, .warning⟩

end Diagnostic

def firstComment? (tokens : List Token) : Option Token :=
  tokens.find? fun token => token.kind == .comment

end ShiFormat
