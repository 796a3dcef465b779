import ShiFormat.Node

/-!
The outline of a tree: one line for each node and each label, indented by depth. A printer writes
outlines to a sink that may refuse to take more bytes.
-/
namespace ShiFormat

structure OutlineLine where
  indent : Nat
  text : String
  deriving DecidableEq, Repr

namespace OutlineLine

def chars (l : OutlineLine) : List Char := List.replicate l.indent ' ' ++ l.text.toList ++ ['\n']

def bytes (l : OutlineLine) : List UInt8 := l.chars.flatMap String.utf8EncodeChar

end OutlineLine

mutual

/-- The lines of a tree whose first line is indented by `indent`. -/
def Node.outline (indent : Nat) : Node → List OutlineLine
  | .arrayAccess id index =>
    ⟨indent, s!"ArrayAccess {id.value}"⟩ :: ⟨indent + 2, "Index:"⟩ :: index.outline (indent + 4)
  | .assignment op target value =>
    ⟨indent, s!"Assignment {op.value}"⟩ ::
      ⟨indent + 2, "Left value:"⟩ :: target.outline (indent + 4) ++
      ⟨indent + 2, "Right value:"⟩ :: value.outline (indent + 4)
  | .binaryOp op left right =>
    ⟨indent, s!"BinaryOp {op.value}"⟩ :: left.outline (indent + 2) ++ right.outline (indent + 2)
  | .call id arguments none =>
    ⟨indent, s!"Call {id.value}"⟩ ::
      ⟨indent + 2, "Arguments:"⟩ :: outlineOfAll (indent + 4) arguments
  | .call id arguments (some body) =>
    ⟨indent, s!"Call {id.value}"⟩ ::
      ⟨indent + 2, "Arguments:"⟩ :: outlineOfAll (indent + 4) arguments ++
      ⟨indent + 2, "Block:"⟩ :: outlineOfAll (indent + 4) body
  | .condition test body alternative =>
    ⟨indent, "Condition"⟩ ::
      ⟨indent + 2, "If:"⟩ :: test.outline (indent + 4) ++
      ⟨indent + 2, "Then:"⟩ :: outlineOfAll (indent + 4) body ++
      alternative.outline (indent + 2)
  | .expressionList items => ⟨indent, "ExpressionList"⟩ :: outlineOfAll (indent + 2) items
  | .identifier id => [⟨indent, s!"Identifier {id.value}"⟩]
  | .literal value => [⟨indent, s!"Literal {value.value} ({value.kind})"⟩]
  | .notOp operand => ⟨indent, "Not"⟩ :: operand.outline (indent + 2)
  | .scopeAccess id inner => [⟨indent, s!"ScopeAccess {id.value}.{inner.value}"⟩]
  | .statementList items => ⟨indent, "StatementList"⟩ :: outlineOfAll (indent + 2) items

def Alternative.outline (indent : Nat) : Alternative → List OutlineLine
  | .absent => []
  | .elseIf test body alternative =>
    ⟨indent, "Else:"⟩ ::
      ⟨indent + 2, "Condition"⟩ ::
      ⟨indent + 4, "If:"⟩ :: test.outline (indent + 6) ++
      ⟨indent + 4, "Then:"⟩ :: outlineOfAll (indent + 6) body ++
      alternative.outline (indent + 4)
  | .elseBlock body => ⟨indent, "Else:"⟩ :: outlineOfAll (indent + 2) body

def outlineOfAll (indent : Nat) : List Node → List OutlineLine
  | [] => []
  | node :: more => node.outline indent ++ outlineOfAll indent more

end

namespace Outline

def text (lines : List OutlineLine) : String := String.ofList (lines.flatMap OutlineLine.chars)

def bytes (lines : List OutlineLine) : List UInt8 := lines.flatMap OutlineLine.bytes

/-- The indent of the line that holds the byte at an offset. -/
def indentAt : List OutlineLine → Nat → Option Nat
  | [], _ => none
  | line :: more, offset =>
    if offset < line.bytes.length then some line.indent
    else indentAt more (offset - line.bytes.length)

end Outline

/-- A printer indents every line of an outline by `indent` more. -/
structure OutlinePrinter where
  indent : Nat
  deriving DecidableEq, Repr

/-- What a sink took of an outline, and whether that was all of it. -/
structure OutlinePrinted where
  taken : List UInt8
  complete : Bool
  deriving DecidableEq, Repr

namespace OutlinePrinter

def fresh : OutlinePrinter := ⟨0⟩

/-- Prints to a sink that takes at most `limit` bytes. A printer that is cut short keeps the
indent of the line it was writing. -/
def print (p : OutlinePrinter) (limit : Option Nat) (n : Node) :
    OutlinePrinted × OutlinePrinter :=
  let lines := n.outline p.indent
  match limit with
  | none => (⟨Outline.bytes lines, true⟩, p)
  | some limit =>
    let taken := (Outline.bytes lines).take limit
    match Outline.indentAt lines limit with
    | none => (⟨taken, true⟩, p)
    | some indent => (⟨taken, false⟩, ⟨indent⟩)

end OutlinePrinter

def Node.outlineText (n : Node) : String := Outline.text (n.outline 0)

end ShiFormat
