import ShiFormat.Text
import ShiFormat.Path

/-!
A build file with its full text, looked at line by line.
-/
namespace ShiFormat

inductive SourceName where
  | file (path : Path)
  | standardInput
  deriving Repr

def SourceName.path : SourceName → Path
  | .file path => path
  | .standardInput => ⟨"<stdin>"⟩

def SourceName.isStandardInput : SourceName → Bool
  | .standardInput => true
  | .file _ => false

structure SourceFile where
  name : SourceName
  content : String
  deriving Repr

namespace SourceFile

def withoutByteOrderMark : List Char → List Char
  | '\ufeff' :: rest => rest
  | text => text

/-- One byte order mark at the start is not part of the content. -/
def ofText (name : SourceName) (text : String) : SourceFile :=
  ⟨name, String.ofList (withoutByteOrderMark text.toList)⟩

def path (s : SourceFile) : Path := s.name.path

/-- The line of a number counted from 1, without the carriage returns at its end. A line that
does not exist is empty. -/
def line (s : SourceFile) : Nat → List Char
  | 0 => []
  | n + 1 =>
    (((Text.pieces '\n' s.content.toList)[n]?).map (Text.dropTrailing '\r')).getD []

end SourceFile
end ShiFormat
