import ShiFormat.Layout

/-!
The text of a layout for a given width of indentation.
-/
namespace ShiFormat

namespace Piece

def text (width : Nat) : Piece → List Char
  | .token _ text => text.toList
  | .space => [' ']
  | .newline => ['\n']
  | .indent level => List.replicate (level * width) ' '
  | .openGroup => ['(']
  | .closeGroup => [')']
  | .stop _ => []

/-- The spaces asked for at once, which is only done for the indentation of a line. -/
def padding (width : Nat) : Piece → Nat
  | .indent level => level * width
  | _ => 0

def break? : Piece → Option Break
  | .stop reason => some reason
  | _ => none

/-- The pieces before the first break. -/
def visible (pieces : List Piece) : List Piece := pieces.takeWhile fun piece => piece.break?.isNone

end Piece

structure Rendering where
  text : String
  brokenOff : Option Break
  deriving DecidableEq, Repr

def Rendering.ofLayout (width : Nat) (pieces : List Piece) : Rendering where
  text := String.ofList ((Piece.visible pieces).flatMap (Piece.text width))
  brokenOff := pieces.findSome? Piece.break?

/-- The canonical text of a tree with `width` spaces for each level of nesting. -/
def Node.format (width : Nat) (n : Node) : Rendering := Rendering.ofLayout width n.layout

/-- Padding is counted in words of 16 bits. -/
def paddingLimit : Nat := 0xffff

/-- The last words of a run that asks for more. -/
def paddingRefusal : String := "Formatting argument out of range"

/-- Some line before the first break is to be indented by more than `paddingLimit` spaces. A run
that writes the text ends there, and gives none of it. -/
def Node.overpadded (width : Nat) (n : Node) : Bool :=
  (Piece.visible n.layout).any fun piece => paddingLimit < piece.padding width

def defaultWidth : Nat := 2

end ShiFormat
