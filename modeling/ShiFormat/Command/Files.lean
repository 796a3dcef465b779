import ShiFormat.Path

/-!
The files of a working directory, named by paths from it, and what is found there under a path.
-/
namespace ShiFormat

/-- Why a file cannot be read as text, or written. -/
inductive FileFault where
  | missing
  | notDirectory
  | directory
  | nameTooLong
  | notUtf8
  | other (text : String)
  deriving DecidableEq, Repr

def FileFault.message : FileFault → String
  | .missing => "No such file or directory (os error 2)"
  | .notDirectory => "Not a directory (os error 20)"
  | .directory => "Is a directory (os error 21)"
  | .nameTooLong => "File name too long (os error 36)"
  | .notUtf8 => "stream did not contain valid UTF-8"
  | .other text => text

/-- The text of some bytes, if they are valid UTF-8. -/
def readText (bytes : ByteArray) : Except FileFault String :=
  match String.fromUTF8? bytes with
  | some text => .ok text
  | none => .error .notUtf8

structure FileEntry where
  name : Path
  bytes : ByteArray

abbrev FileSet : Type := List FileEntry

namespace FileSet

/-- The names on the way to a file. -/
def wayTo (entry : FileEntry) : List (List Char) :=
  entry.name.steps.filterMap fun
    | .name text => some text
    | _ => none

def fileAt? (files : FileSet) (way : List (List Char)) : Option FileEntry :=
  files.find? fun entry => wayTo entry == way

def isDirectory (files : FileSet) (way : List (List Char)) : Bool :=
  way.isEmpty || files.any fun entry => way.isPrefixOf (wayTo entry) && wayTo entry != way

/-- The most bytes a name in a directory has. -/
def nameLimit : Nat := 255

/-- The most bytes the text of a path has. -/
def pathLimit : Nat := 4095

def isOverlong (name : List Char) : Bool := nameLimit < Text.utf8Length name

/-- Follows steps from a place in the working directory, given by the names that lead to it. The
places outside are all one: a directory of which no entry is known. -/
def follow (files : FileSet) : Option (List (List Char)) → List Path.Step →
    Except FileFault (Option (List (List Char)))
  | way, [] => .ok way
  | none, .name text :: _ => .error (if isOverlong text then .nameTooLong else .missing)
  | none, _ :: more => follow files none more
  | some way, step :: more =>
    if (files.fileAt? way).isSome then .error .notDirectory
    else if !files.isDirectory way then .error .missing
    else match step with
      | .root => follow files none more
      | .here => follow files (some way) more
      | .up => follow files (if way.isEmpty then none else some way.dropLast) more
      | .name text =>
        if isOverlong text then .error .nameTooLong
        else follow files (some (way ++ [text])) more

/-- A path that ends in a slash or a dot can only lead to a directory. -/
def demandsDirectory (path : Path) : Bool :=
  match (Text.pieces '/' path.text.toList).getLast? with
  | some last => last == [] || last == ['.'] || last == ['.', '.']
  | none => false

/-- The file under a path. A name is too long where it is looked up, so a fault on the way to that
place comes first; a path is too long before any of it is followed. -/
def locate (files : FileSet) (path : Path) : Except FileFault FileEntry :=
  if pathLimit < path.text.utf8ByteSize then .error .nameTooLong
  else do
    match ← files.follow (some []) path.steps with
    | none => .error .directory
    | some way =>
      match files.fileAt? way with
      | some entry => if demandsDirectory path then .error .notDirectory else .ok entry
      | none => if files.isDirectory way then .error .directory else .error .missing

/-- The files after new bytes were written to the file under a path. -/
def write (files : FileSet) (path : Path) (bytes : ByteArray) : FileSet :=
  match files.locate path with
  | .ok found => files.map fun entry =>
      if wayTo entry == wayTo found then { entry with bytes } else entry
  | .error _ => files

end FileSet
end ShiFormat
