import ShiFormat.Rendering
import ShiFormat.Proofs.Canonical.Positions

/-!
Where a layout breaks off: at nodes that do not belong where they stand and at operators that have
no precedence, and nowhere else. The layout of a well-formed tree is whole, so all of it is visible.
-/
namespace ShiFormat

namespace Node

/-- Why a layout breaks off at a node, if the node is to blame. -/
def break? : Position → Node → Option Break
  | _, .binaryOp op _ _ => if op.kind.precedence?.isNone then some (.unranked op.kind) else none
  | .expression, .assignment .. => some (.misplaced "Assignment")
  | .expression, .condition .. => some (.misplaced "Condition")
  | .expression, .statementList _ => some (.misplaced "StatementList")
  | _, _ => none

theorem break?_of_fits {position : Position} {n : Node} (fit : n.fits position) :
    n.break? position = none := by
  cases n with
  | binaryOp op left right =>
    cases position with
    | statement => cases fit
    | expression =>
      obtain ⟨p, precedence⟩ := Option.isSome_iff_exists.mp fit
      simp [break?, TokenKind.precedence_of_binary precedence]
  | assignment | condition | statementList => cases position <;> first | rfl | cases fit
  | _ => cases position <;> rfl

end Node

namespace Piece

/-- What is asked of the pieces of a layout: of the reasons to break off, and of the levels by which
lines are indented. -/
structure Limits where
  admitted : Break → Bool := fun _ => true
  reached : Nat → Bool := fun _ => true

def meets (c : Limits) : Piece → Bool
  | .stop reason => c.admitted reason
  | .indent level => c.reached level
  | _ => true

def allMeet (c : Limits) (ps : List Piece) : Bool := ps.all (meets c)

variable (c : Limits)

@[simp] theorem allMeet_nil : allMeet c [] := rfl

@[simp] theorem allMeet_append (ps qs : List Piece) :
    allMeet c (ps ++ qs) = (allMeet c ps && allMeet c qs) := List.all_append

@[simp] theorem allMeet_ofToken (t : Token) (ps : List Piece) :
    allMeet c (ofToken t :: ps) = allMeet c ps := rfl

@[simp] theorem allMeet_mark (kind : TokenKind) (ps : List Piece) :
    allMeet c (mark kind :: ps) = allMeet c ps := rfl

@[simp] theorem allMeet_space (ps : List Piece) : allMeet c (.space :: ps) = allMeet c ps := rfl

@[simp] theorem allMeet_newline (ps : List Piece) : allMeet c (.newline :: ps) = allMeet c ps := rfl

@[simp] theorem allMeet_indent (level : Nat) (ps : List Piece) :
    allMeet c (.indent level :: ps) = (c.reached level && allMeet c ps) := rfl

@[simp] theorem allMeet_stop (reason : Break) (ps : List Piece) :
    allMeet c (.stop reason :: ps) = (c.admitted reason && allMeet c ps) := rfl

@[simp] theorem allMeet_spaced (t : Token) : allMeet c (spaced t) := rfl

@[simp] theorem allMeet_grouped (parens : Bool) (inside : List Piece) :
    allMeet c (grouped parens inside) = allMeet c inside := by
  have openGroup (ps : List Piece) : allMeet c (.openGroup :: ps) = allMeet c ps := rfl
  have closeGroup : allMeet c [.closeGroup] := rfl
  cases parens <;> simp [grouped, openGroup, closeGroup]

@[simp] theorem allMeet_guarded (test : List Piece) :
    allMeet c (guarded test) = allMeet c test := by
  simp [guarded]

@[simp] theorem allMeet_braced (level : Nat) (lines : List Piece) :
    allMeet c (braced level lines) = (allMeet c lines && c.reached level) := by
  simp [braced]

def whole (ps : List Piece) : Bool := ps.all fun p => p.break?.isNone

theorem whole_eq (ps : List Piece) : whole ps = allMeet { admitted := fun _ => false } ps :=
  congrArg ps.all (funext fun p => by cases p <;> rfl)

theorem visible_of_whole {ps : List Piece} (h : whole ps) : visible ps = ps := by
  have all : (ps ++ []).takeWhile (fun p => p.break?.isNone) = ps ++ [].takeWhile _ :=
    List.takeWhile_append_of_pos (List.all_eq_true.mp h)
  simpa [visible] using all

theorem findSome_break_of_whole {ps : List Piece} (h : whole ps) : ps.findSome? break? = none := by
  rw [List.findSome?_eq_none_iff]
  intro p member
  exact Option.isNone_iff_eq_none.mp (List.all_eq_true.mp h p member)

end Piece

/-- Every node that is to blame for a break is so for an admitted reason. -/
def admits (admitted : Break → Bool) (nodes : List (Position × Node)) : Bool :=
  nodes.all fun x => (x.2.break? x.1).all admitted

variable (admitted : Break → Bool)

@[simp] theorem admits_nil : admits admitted [] := rfl

@[simp] theorem admits_cons (position : Position) (n : Node) (nodes : List (Position × Node)) :
    admits admitted ((position, n) :: nodes) =
      ((n.break? position).all admitted && admits admitted nodes) := rfl

@[simp] theorem admits_append (ns ms : List (Position × Node)) :
    admits admitted (ns ++ ms) = (admits admitted ns && admits admitted ms) :=
  List.all_append

variable {admitted}

theorem admits_of_allFit {nodes : List (Position × Node)} (fit : allFit nodes) :
    admits admitted nodes := by
  refine List.all_eq_true.mpr fun x member => ?_
  rw [Node.break?_of_fits (List.all_eq_true.mp fit x member)]
  rfl

namespace Node
open Piece
variable {c : Limits}

theorem admitted_of_operator {position : Position} {n : Node} {kind : TokenKind}
    (here : (n.break? position).all admitted) (operator : kind ∈ n.operator?)
    (bare : kind.precedence?.isNone) : admitted (.unranked kind) := by
  cases n with
  | binaryOp op left right =>
    cases operator
    simpa [break?, bare] using here
  | _ => cases operator

theorem unranked_meets {op : Token} {left right : Node} {position : Position}
    (here : ((binaryOp op left right).break? position).all c.admitted)
    (first : (left.break? .expression).all c.admitted)
    (second : (right.break? .expression).all c.admitted) :
    allMeet c (unranked op left right) := by
  rw [allMeet, List.all_eq_true]
  intro piece member
  obtain ⟨kind, asked, rfl⟩ := List.mem_map.mp member
  obtain ⟨compared, bare⟩ := List.mem_filter.mp asked
  simp only [List.cons_append, List.mem_cons, List.mem_append, Option.mem_toList] at compared
  obtain rfl | operator | operator := compared
  · exact admitted_of_operator here rfl bare
  · exact admitted_of_operator first operator bare
  · exact admitted_of_operator second operator bare

mutual

theorem expression_meets : (e : Node) → (e.break? .expression).all c.admitted →
    admits c.admitted e.parts → allMeet c e.expressionLayout
  | .arrayAccess id index, _, below => by
    simp only [parts, admits_cons, Bool.and_eq_true] at below
    simp [expressionLayout, expression_meets index below.1 below.2]
  | .binaryOp op left right, here, below => by
    simp only [parts, List.cons_append, admits_cons, admits_append, Bool.and_eq_true] at below
    obtain ⟨first, insideFirst, second, insideSecond⟩ := below
    simp [expressionLayout, unranked_meets here first second,
      expression_meets left first insideFirst, expression_meets right second insideSecond]
  | .call id arguments none, _, below => by
    simp [expressionLayout, list_meets arguments below]
  | .call id arguments (some block), _, below => by
    simp only [parts, admits_append, Bool.and_eq_true] at below
    simp [expressionLayout, list_meets arguments below.1]
  | .expressionList items, _, below => by
    simp [expressionLayout, list_meets items below]
  | .notOp operand, _, below => by
    simp only [parts, admits_cons, Bool.and_eq_true] at below
    simp [expressionLayout, expression_meets operand below.1 below.2]
  | .identifier _, _, _ | .literal _, _, _ | .scopeAccess .., _, _ => by simp [expressionLayout]
  | .assignment .., here, _ | .condition .., here, _ | .statementList _, here, _ => by
    simpa [expressionLayout, break?] using here

theorem list_meets : (items : List Node) → admits c.admitted (partsOfAll .expression items) →
    allMeet c (listLayout items)
  | [], _ => rfl
  | item :: more, below => by
    simp only [partsOfAll, List.cons_append, admits_cons, admits_append, Bool.and_eq_true] at below
    simp [listLayout, expression_meets item below.1 below.2.1, more_meets more below.2.2]

theorem more_meets : (items : List Node) → admits c.admitted (partsOfAll .expression items) →
    allMeet c (moreLayout items)
  | [], _ => rfl
  | item :: more, below => by
    simp only [partsOfAll, List.cons_append, admits_cons, admits_append, Bool.and_eq_true] at below
    simp [moreLayout, expression_meets item below.1 below.2.1, more_meets more below.2.2]

end

mutual

theorem statement_meets (reached : ∀ level, c.reached level) (level : Nat) : (statement : Node) →
    (statement.break? .statement).all c.admitted → admits c.admitted statement.parts →
    allMeet c (statement.statementLayout level)
  | .assignment op target value, _, below => by
    simp only [parts, List.cons_append, admits_cons, admits_append, Bool.and_eq_true] at below
    obtain ⟨first, insideFirst, second, insideSecond⟩ := below
    simp [statementLayout, reached, expression_meets target first insideFirst,
      expression_meets value second insideSecond]
  | .call id arguments none, _, below => by
    simp [statementLayout, reached, expressionLayout, list_meets arguments below]
  | .call id arguments (some block), _, below => by
    simp only [parts, admits_append, Bool.and_eq_true] at below
    simp [statementLayout, reached, expressionLayout, list_meets arguments below.1,
      statements_meets reached (level + 1) block below.2]
  | .condition test body alternative, _, below => by
    simp only [parts, List.cons_append, admits_cons, admits_append, Bool.and_eq_true] at below
    obtain ⟨first, ⟨insideFirst, inBody⟩, inAlternative⟩ := below
    simp [statementLayout, reached, expression_meets test first insideFirst,
      statements_meets reached (level + 1) body inBody,
      alternative_meets reached level alternative inAlternative]
  | .statementList body, _, below => by
    simp [statementLayout, reached, statements_meets reached (level + 1) body below]
  | .arrayAccess .., here, below | .binaryOp .., here, below
  | .expressionList _, here, below | .notOp _, here, below => by
    have line := expression_meets _ (by exact here) below
    simp [statementLayout, reached, line]
  | .identifier _, _, _ | .literal _, _, _ | .scopeAccess .., _, _ => by
    simp [statementLayout, reached, expressionLayout]

theorem alternative_meets (reached : ∀ level, c.reached level) (level : Nat) :
    (alternative : Alternative) →
    admits c.admitted alternative.parts → allMeet c (alternativeLayout level alternative)
  | .absent, _ => rfl
  | .elseIf test body alternative, below => by
    simp only [Alternative.parts, List.cons_append, admits_cons, admits_append,
      Bool.and_eq_true] at below
    obtain ⟨first, ⟨insideFirst, inBody⟩, inAlternative⟩ := below
    simp [alternativeLayout, reached, expression_meets test first insideFirst,
      statements_meets reached (level + 1) body inBody,
      alternative_meets reached level alternative inAlternative]
  | .elseBlock body, below => by
    simp [alternativeLayout, reached, statements_meets reached (level + 1) body below]

theorem statements_meets (reached : ∀ level, c.reached level) (level : Nat) : (body : List Node) →
    admits c.admitted (partsOfAll .statement body) →
    allMeet c (statementsLayout level body)
  | [], _ => rfl
  | statement :: more, below => by
    simp only [partsOfAll, List.cons_append, admits_cons, admits_append, Bool.and_eq_true] at below
    simp [statementsLayout, statement_meets reached level statement below.1 below.2.1,
      statements_meets reached level more below.2.2]

end

/-- A layout breaks off only at nodes that are to blame for it. -/
theorem layout_meets (reached : ∀ level, c.reached level) (n : Node)
    (nodes : admits c.admitted n.placed) : allMeet c n.layout := by
  obtain ⟨here, below⟩ := Bool.and_eq_true_iff.mp nodes
  cases n with
  | statementList items => exact statements_meets reached 0 items below
  | assignment | call | condition => exact statement_meets reached 0 _ here below
  | _ => exact expression_meets _ here below

theorem statements_whole (level : Nat) (body : List Node) (formed : allStatements body) :
    whole (statementsLayout level body) := by
  rw [allStatements_eq, Bool.and_eq_true] at formed
  rw [whole_eq]
  exact statements_meets (fun _ => rfl) level body (admits_of_allFit formed.1)

end Node
end ShiFormat
