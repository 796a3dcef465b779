import ShiFormat.Log
import ShiFormat.Text
import ShiFormat.Text.WhiteSpace

/-!
Which records of a run are shown. A filter starts from a verbosity and takes directives, each of
which sets the verbosity anew, or sets another one for the records whose target begins with a name.
-/
namespace ShiFormat

inductive LogDirective where
  | everywhere (verbosity : Verbosity)
  | under (name : List Char) (verbosity : Verbosity)
  deriving DecidableEq, Repr

/-- What cannot be read in the text of a filter. -/
inductive LogFilterFault where
  | unclear (directive : List Char)
  | tooManySlashes (text : List Char)
  deriving DecidableEq, Repr

def LogFilterFault.message : LogFilterFault → String
  | .unclear directive =>
    s!"warning: invalid logging spec '{String.ofList directive}', ignoring it\n"
  | .tooManySlashes text =>
    s!"warning: invalid logging spec '{String.ofList text}', ignoring it (too many '/'s)\n"

/-- A level name sets the verbosity everywhere, and after a name and an equals sign only under that
name. A name alone shows all there is under it. -/
def LogDirective.ofText (text : List Char) : Except LogFilterFault LogDirective :=
  match Text.pieces '=' text with
  | [word] => .ok <| match Verbosity.ofName? word with
    | some verbosity => .everywhere verbosity
    | none => .under word (some .trace)
  | [name, level] =>
    match Text.trim level with
    | [] => .ok (.under name (some .trace))
    | level => match Verbosity.ofName? level with
      | some verbosity => .ok (.under name verbosity)
      | none => .error (.unclear level)
  | _ => .error (.unclear text)

structure LogFilter where
  base : Verbosity
  named : List (List Char × Verbosity)
  /-- The text that every record shown contains. -/
  part : List Char
  deriving DecidableEq, Repr

namespace LogFilter

def ofVerbosity (verbosity : Verbosity) : LogFilter := ⟨verbosity, [], []⟩

def add (f : LogFilter) : LogDirective → LogFilter
  | .everywhere verbosity => { f with base := verbosity }
  | .under name verbosity => { f with named := f.named ++ [(name, verbosity)] }

/-- Takes the directives of a text, which commas divide, and tells the faults among them. -/
def addAll (f : LogFilter) (text : List Char) : LogFilter × List LogFilterFault :=
  (((Text.pieces ',' text).map Text.trim).filter (!·.isEmpty)).foldl
    (fun (f, faults) piece => match LogDirective.ofText piece with
      | .ok directive => (f.add directive, faults)
      | .error fault => (f, faults ++ [fault]))
    (f, [])

/-- Adjusts a filter by a text: directives, and after a slash the text a record must contain. -/
def adjust (f : LogFilter) (text : List Char) : LogFilter × List LogFilterFault :=
  match Text.pieces '/' text with
  | [directives] => f.addAll directives
  | [directives, part] => { f with part }.addAll directives
  | _ => (f, [.tooManySlashes text])

/-- The verbosity for a target is that of the longest name it begins with. The last of several
directives for one name counts. -/
def verbosityFor (f : LogFilter) (target : List Char) : Verbosity :=
  ((f.named.filter fun entry => entry.1.isPrefixOf target).foldl
    (fun (length, verbosity) entry =>
      if entry.1.length < length then (length, verbosity) else (entry.1.length, entry.2))
    (0, f.base)).2

def shows (f : LogFilter) (r : LogRecord) : Bool :=
  (f.verbosityFor r.target.toList).shows r.level && Text.contains f.part r.text.toList

/-- The lines of the events that are shown. -/
def logText (f : LogFilter) (events : List Event) : String :=
  String.join (((events.map Event.record).filter f.shows).map LogRecord.line)

end LogFilter
end ShiFormat
