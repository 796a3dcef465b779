import ShiFormat.Rendering
import ShiFormat.SourceFile

/-!
Command lines. Arguments are read from left to right; asking for the version or for help, and most
faults, take effect where they are met, while options that exclude each other and a missing file
are found at the end.
-/
namespace ShiFormat

inductive Mode where
  | lex
  | parse
  | format
  deriving DecidableEq, Repr

structure Options where
  mode : Mode
  width : Nat
  write : Bool
  verbosity : Nat
  input : SourceName
  deriving Repr

inductive Request where
  | usageFault
  | version
  | help
  | run (options : Options)
  deriving Repr

inductive Switch where
  | lex
  | parse
  | write
  | verbose
  | version
  | help
  deriving DecidableEq, Repr

namespace Switch

def ofLong? : String → Option Switch
  | "lex" => some .lex
  | "parse" => some .parse
  | "write" => some .write
  | "verbose" => some .verbose
  | "version" => some .version
  | "help" => some .help
  | _ => none

def ofShort? : Char → Option Switch
  | 'w' => some .write
  | 'v' => some .verbose
  | 'V' => some .version
  | 'h' => some .help
  | _ => none

end Switch

/-- The arguments read so far. -/
structure Arguments where
  lex : Bool := false
  parse : Bool := false
  write : Bool := false
  verbosity : Nat := 0
  width : Option Nat := none
  file : Option String := none
  deriving DecidableEq, Repr

namespace Arguments

def widthLimit : Nat := 16

/-- A whole number with an optional sign, from 0 up to the limit. -/
def width? (text : List Char) : Option Nat :=
  let (negative, digits) := match text with
    | '-' :: digits => (true, digits)
    | '+' :: digits => (false, digits)
    | digits => (false, digits)
  if digits.isEmpty || !digits.all Char.isDigit then none
  else
    let value := digits.foldl (fun n c => n * 10 + (c.toNat - '0'.toNat)) 0
    if widthLimit < value || negative && value != 0 then none else some value

/-- Only the request for more logging may be repeated. -/
def addSwitch (a : Arguments) : Switch → Except Request Arguments
  | .lex => if a.lex then .error .usageFault else .ok { a with lex := true }
  | .parse => if a.parse then .error .usageFault else .ok { a with parse := true }
  | .write => if a.write then .error .usageFault else .ok { a with write := true }
  | .verbose => .ok { a with verbosity := a.verbosity + 1 }
  | .version => .error .version
  | .help => .error .help

def addShort (a : Arguments) (letter : Char) : Except Request Arguments :=
  match Switch.ofShort? letter with
  | some switch => a.addSwitch switch
  | none => .error .usageFault

def addWidth (a : Arguments) (text : List Char) : Except Request Arguments :=
  match a.width, width? text with
  | none, some width => .ok { a with width := some width }
  | _, _ => .error .usageFault

def addFile (a : Arguments) (text : String) : Except Request Arguments :=
  if text.isEmpty || a.file.isSome then .error .usageFault else .ok { a with file := some text }

/-- An argument that names an option, as a lone dash does not. -/
def looksLikeOption : List Char → Bool
  | '-' :: _ :: _ => true
  | _ => false

/-- After `--` every argument is a file. -/
def readFiles (a : Arguments) (arguments : List String) : Except Request Arguments :=
  arguments.foldlM addFile a

def read (a : Arguments) : List String → Except Request Arguments
  | [] => .ok a
  | argument :: more =>
    match argument.toList with
    | ['-', '-'] => a.readFiles more
    | '-' :: '-' :: long =>
      let name := String.ofList (long.takeWhile (· != '='))
      let value := (long.dropWhile (· != '=')).tail?
      if name = "indent" then
        match value, more with
        | some value, more => (a.addWidth value).bind fun a => a.read more
        | none, value :: more =>
          if looksLikeOption value.toList then .error .usageFault
          else (a.addWidth value.toList).bind fun a => a.read more
        | none, [] => .error .usageFault
      else match Switch.ofLong? name, value with
        | some switch, none => (a.addSwitch switch).bind fun a => a.read more
        | _, _ => .error .usageFault
    | '-' :: letter :: letters =>
      ((letter :: letters).foldlM addShort a).bind fun a => a.read more
    | _ => (a.addFile argument).bind fun a => a.read more

/-- The request of a whole command line. -/
def request (a : Arguments) : Request :=
  match a.file with
  | none => .usageFault
  | some file =>
    if a.lex && a.parse || a.write && (a.lex || a.parse) then .usageFault
    else .run {
      mode := if a.lex then .lex else if a.parse then .parse else .format
      width := a.width.getD defaultWidth
      write := a.write
      verbosity := a.verbosity
      input := if file = "-" then .standardInput else .file ⟨file⟩ }

end Arguments

def Request.ofArguments (arguments : List String) : Request :=
  match Arguments.read {} arguments with
  | .ok a => a.request
  | .error request => request

end ShiFormat
