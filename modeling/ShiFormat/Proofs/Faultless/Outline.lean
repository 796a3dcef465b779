import ShiFormat.Outline
import ShiFormat.Proofs.Fault

/-!
A printer of outlines that counts its indent up before what is nested and down behind it, and stops
where its sink takes no more. It prints the lines of the outline, and counts down no further than it
has counted up.
-/
namespace ShiFormat

/-- What has been taken so far, and how much may be taken in all. -/
structure Sink where
  taken : List UInt8
  limit : Option Nat

structure Pen where
  indent : Nat
  sink : Sink

/-- Why a printer stops: its sink is full while it writes a line of this indent, or it is at
fault. -/
inductive Stop where
  | full (indent : Nat) (taken : List UInt8)
  | fault (fault : Fault)

def Sink.holds (s : Sink) (n : Nat) : Bool := s.limit.all fun limit => n ≤ limit

/-- Takes a line, or as much of it as there is room for. -/
def Sink.take (s : Sink) (l : OutlineLine) : Except Stop Sink :=
  let taken := s.taken ++ l.bytes
  if s.holds taken.length then .ok { s with taken }
  else .error (.full l.indent (taken.take (s.limit.getD 0)))

def Sink.takeAll (s : Sink) : List OutlineLine → Except Stop Sink
  | [] => .ok s
  | l :: more => do (← s.take l).takeAll more

namespace Pen

def deeper (p : Pen) : Pen := { p with indent := p.indent + 2 }

def shallower (p : Pen) : Except Stop Pen :=
  if 2 ≤ p.indent then .ok { p with indent := p.indent - 2 } else .error (.fault .underflow)

theorem shallower_deeper (p : Pen) : p.deeper.shallower = .ok p :=
  if_pos (Nat.le_add_left 2 p.indent)

end Pen

abbrev Printing := Pen → Except Stop Pen

namespace Printing

def nothing : Printing := .ok

def line (text : String) : Printing := fun pen => do
  pure { pen with sink := ← pen.sink.take ⟨pen.indent, text⟩ }

def andThen (first second : Printing) : Printing := fun pen => do second (← first pen)

/-- Counts the indent up, prints, and counts it down again. -/
def nested (inside : Printing) : Printing := fun pen => do (← inside pen.deeper).shallower

def labeled (label : String) (inside : Printing) : Printing := (line label).andThen (nested inside)

end Printing

open Printing

mutual

def Node.printing : Node → Printing
  | .arrayAccess id index =>
    (line s!"ArrayAccess {id.value}").andThen (nested (labeled "Index:" index.printing))
  | .assignment op target value =>
    (line s!"Assignment {op.value}").andThen (nested
      ((labeled "Left value:" target.printing).andThen (labeled "Right value:" value.printing)))
  | .binaryOp op left right =>
    (line s!"BinaryOp {op.value}").andThen (nested (left.printing.andThen right.printing))
  | .call id arguments none =>
    (line s!"Call {id.value}").andThen (nested (labeled "Arguments:" (printingOfAll arguments)))
  | .call id arguments (some body) =>
    (line s!"Call {id.value}").andThen (nested
      ((labeled "Arguments:" (printingOfAll arguments)).andThen
        (labeled "Block:" (printingOfAll body))))
  | .condition test body alternative =>
    (line "Condition").andThen (nested
      ((labeled "If:" test.printing).andThen
        ((labeled "Then:" (printingOfAll body)).andThen alternative.printing)))
  | .expressionList items => (line "ExpressionList").andThen (nested (printingOfAll items))
  | .identifier id => line s!"Identifier {id.value}"
  | .literal value => line s!"Literal {value.value} ({value.kind})"
  | .notOp operand => (line "Not").andThen (nested operand.printing)
  | .scopeAccess id inner => line s!"ScopeAccess {id.value}.{inner.value}"
  | .statementList items => (line "StatementList").andThen (nested (printingOfAll items))

def Alternative.printing : Alternative → Printing
  | .absent => nothing
  | .elseIf test body alternative =>
    (line "Else:").andThen (nested ((line "Condition").andThen (nested
      ((labeled "If:" test.printing).andThen
        ((labeled "Then:" (printingOfAll body)).andThen alternative.printing)))))
  | .elseBlock body => labeled "Else:" (printingOfAll body)

def printingOfAll : List Node → Printing
  | [] => nothing
  | node :: more => node.printing.andThen (printingOfAll more)

end

/-- Prints to a sink, as long as that takes something. -/
def Checked.print (p : OutlinePrinter) (limit : Option Nat) (n : Node) :
    Checked (OutlinePrinted × OutlinePrinter) :=
  match n.printing ⟨p.indent, ⟨[], limit⟩⟩ with
  | .ok pen => .ok (⟨pen.sink.taken, true⟩, ⟨pen.indent⟩)
  | .error (.full indent taken) => .ok (⟨taken, false⟩, ⟨indent⟩)
  | .error (.fault f) => Checked.fault f

theorem Outline.length_le_of_indentAt {lines : List OutlineLine} {offset : Nat}
    (beyond : indentAt lines offset = none) : (bytes lines).length ≤ offset := by
  induction lines generalizing offset with
  | nil => exact Nat.zero_le _
  | cons l more ih =>
    rw [indentAt] at beyond
    split at beyond
    · cases beyond
    · have later : (bytes more).length ≤ offset - l.bytes.length := ih beyond
      rw [bytes, List.flatMap_cons, List.length_append]
      rw [bytes] at later
      omega

namespace Sink

theorem takeAll_append (s : Sink) (first second : List OutlineLine) :
    s.takeAll (first ++ second) = s.takeAll first >>= (Sink.takeAll · second) := by
  induction first generalizing s with
  | nil => rfl
  | cons l more ih =>
    rw [List.cons_append, takeAll, takeAll]
    cases s.take l with
    | ok s => exact ih s
    | error stop => rfl

theorem takeAll_unlimited (taken : List UInt8) (lines : List OutlineLine) :
    takeAll ⟨taken, none⟩ lines = .ok ⟨taken ++ Outline.bytes lines, none⟩ := by
  induction lines generalizing taken with
  | nil => simp [takeAll, Outline.bytes]
  | cons l more ih =>
    have first : take ⟨taken, none⟩ l = .ok ⟨taken ++ l.bytes, none⟩ := rfl
    rw [takeAll, first]
    exact (ih _).trans (by simp [Outline.bytes])

/-- What stays out of a limited sink begins in the line that holds the first byte beyond. -/
theorem takeAll_limited {limit : Nat} (taken : List UInt8) (within : taken.length ≤ limit)
    (lines : List OutlineLine) : takeAll ⟨taken, some limit⟩ lines =
      match Outline.indentAt lines (limit - taken.length) with
      | none => .ok ⟨taken ++ Outline.bytes lines, some limit⟩
      | some indent => .error (.full indent ((taken ++ Outline.bytes lines).take limit)) := by
  induction lines generalizing taken with
  | nil => simp [takeAll, Outline.bytes, Outline.indentAt]
  | cons l more ih =>
    have whole : taken ++ Outline.bytes (l :: more) = taken ++ l.bytes ++ Outline.bytes more := by
      simp [Outline.bytes]
    rw [takeAll, take, holds, Option.all_some, List.length_append, whole, Outline.indentAt]
    by_cases room : taken.length + l.bytes.length ≤ limit
    · have inside : ¬ limit - taken.length < l.bytes.length := by omega
      have left : limit - taken.length - l.bytes.length =
          limit - (taken ++ l.bytes).length := by
        rw [List.length_append]
        omega
      simp only [room, decide_true, ↓reduceIte, inside, left]
      exact ih _ (by rwa [List.length_append])
    · have inside : limit - taken.length < l.bytes.length := by omega
      simp only [room, decide_false, Bool.false_eq_true, ↓reduceIte, inside, Option.getD_some]
      have cut : (taken ++ l.bytes ++ Outline.bytes more).take limit =
          (taken ++ l.bytes).take limit :=
        List.take_append_of_le_length (by rw [List.length_append]; omega)
      rw [cut]
      rfl

end Sink

namespace Printing

/-- Under every indent these are the lines that are printed, and the indent is kept. -/
def Prints (printing : Printing) (lines : Nat → List OutlineLine) : Prop :=
  ∀ indent sink, printing ⟨indent, sink⟩ = (sink.takeAll (lines indent)).map (Pen.mk indent)

variable {first second inside : Printing} {f g : Nat → List OutlineLine}

theorem prints_nothing : Prints nothing fun _ => [] := fun _ _ => rfl

theorem prints_line (text : String) : Prints (line text) fun indent => [⟨indent, text⟩] := by
  intro indent sink
  rw [line, Sink.takeAll]
  cases sink.take ⟨indent, text⟩ <;> rfl

theorem Prints.andThen (prints : Prints first f) (prints' : Prints second g) :
    Prints (first.andThen second) fun indent => f indent ++ g indent := by
  intro indent sink
  rw [Printing.andThen, prints, Sink.takeAll_append]
  cases sink.takeAll (f indent) with
  | ok sink => exact prints' indent sink
  | error stop => rfl

theorem Prints.nested (prints : Prints inside f) :
    Prints (nested inside) fun indent => f (indent + 2) := by
  intro indent sink
  rw [Printing.nested, Pen.deeper, prints]
  cases sink.takeAll (f (indent + 2)) with
  | ok sink => exact Pen.shallower_deeper ⟨indent, sink⟩
  | error stop => rfl

theorem Prints.labeled (label : String) (prints : Prints inside f) :
    Prints (labeled label inside) fun indent => ⟨indent, label⟩ :: f (indent + 2) :=
  (prints_line label).andThen prints.nested

theorem Prints.same (prints : Prints inside f) (same : ∀ indent, f indent = g indent) :
    Prints inside g := funext same ▸ prints

end Printing

mutual

theorem Node.prints : (n : Node) → Prints n.printing n.outline
  | .arrayAccess id index => (prints_line _).andThen (index.prints.labeled _).nested
  | .assignment op target value => by
    have sides := (target.prints.labeled "Left value:").andThen
      (value.prints.labeled "Right value:")
    exact ((prints_line _).andThen sides.nested).same fun indent => by simp [Node.outline]
  | .binaryOp op left right => by
    have sides := left.prints.andThen right.prints
    exact ((prints_line _).andThen sides.nested).same fun indent => by simp [Node.outline]
  | .call id arguments none =>
    (prints_line _).andThen ((printsAll arguments).labeled _).nested
  | .call id arguments (some body) => by
    have parts := ((printsAll arguments).labeled "Arguments:").andThen
      ((printsAll body).labeled "Block:")
    exact ((prints_line _).andThen parts.nested).same fun indent => by simp [Node.outline]
  | .condition test body alternative => by
    have parts := (test.prints.labeled "If:").andThen
      (((printsAll body).labeled "Then:").andThen alternative.prints)
    exact ((prints_line _).andThen parts.nested).same fun indent => by simp [Node.outline]
  | .expressionList items => (prints_line _).andThen (printsAll items).nested
  | .identifier id => prints_line _
  | .literal value => prints_line _
  | .notOp operand => (prints_line _).andThen operand.prints.nested
  | .scopeAccess id inner => prints_line _
  | .statementList items => (prints_line _).andThen (printsAll items).nested

theorem Alternative.prints : (a : Alternative) → Prints a.printing a.outline
  | .absent => prints_nothing
  | .elseIf test body alternative => by
    have parts := (test.prints.labeled "If:").andThen
      (((printsAll body).labeled "Then:").andThen alternative.prints)
    exact ((prints_line _).andThen ((prints_line _).andThen parts.nested).nested).same
      fun indent => by simp [Alternative.outline]
  | .elseBlock body => (printsAll body).labeled _

theorem printsAll : (nodes : List Node) → Prints (printingOfAll nodes) (outlineOfAll · nodes)
  | [] => prints_nothing
  | node :: more => node.prints.andThen (printsAll more)

end

/-- The indent is back where it was, or that of the line that the sink cut. -/
theorem Checked.print_ok (p : OutlinePrinter) (limit : Option Nat) (n : Node) :
    Checked.print p limit n = .ok (p.print limit n) := by
  rw [Checked.print, n.prints]
  cases limit with
  | none =>
    rw [Sink.takeAll_unlimited]
    rfl
  | some limit =>
    rw [Sink.takeAll_limited [] (Nat.zero_le _), OutlinePrinter.print, List.length_nil,
      Nat.sub_zero]
    cases cut : Outline.indentAt (n.outline p.indent) limit with
    | none =>
      have whole := List.take_of_length_le (Outline.length_le_of_indentAt cut)
      simp [Except.map, whole]
    | some indent => simp [Except.map]

end ShiFormat
