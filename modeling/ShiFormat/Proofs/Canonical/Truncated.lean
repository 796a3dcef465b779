import ShiFormat.Proofs.Faultless.Writer
import ShiFormat.Proofs.Canonical.Shown

/-!
Where the text of a tree ends that has statements inside its expressions: before the first of them
in the order of writing. Nothing that comes after it is needed to know what comes before it, so the
text goes on in the same way with whatever name stands there instead.
-/
namespace ShiFormat

/-- A statement where an expression is due. -/
def Node.isMisplaced : Position → Node → Bool
  | .expression, .assignment .. | .expression, .condition .. => true
  | .expression, .statementList _ => true
  | _, _ => false

/-- The first statement in an expression among nodes in the order of writing. -/
def firstMisplaced (nodes : List (Position × Node)) : Option Node :=
  (nodes.find? fun x => x.2.isMisplaced x.1).map Prod.snd

theorem firstMisplaced_append (ns ms : List (Position × Node)) :
    firstMisplaced (ns ++ ms) = (firstMisplaced ns).or (firstMisplaced ms) := by
  rw [firstMisplaced, List.find?_append, Option.map_or, firstMisplaced, firstMisplaced]

/-- No node is misplaced as a statement. -/
theorem firstMisplaced_statement (n : Node) (nodes : List (Position × Node)) :
    firstMisplaced ((.statement, n) :: nodes) = firstMisplaced nodes := by
  cases n <;> rfl

mutual

/-- The expression with an identifier in place of the first statement in it. -/
def Node.mendedExpression (id : Token) : Node → Node
  | .arrayAccess name index => .arrayAccess name (index.mendedExpression id)
  | .binaryOp op left right =>
    if (firstMisplaced ((.expression, left) :: left.parts)).isSome then
      .binaryOp op (left.mendedExpression id) right
    else .binaryOp op left (right.mendedExpression id)
  | .call name arguments block => .call name (mendedExpressions id arguments) block
  | .expressionList items => .expressionList (mendedExpressions id items)
  | .notOp operand => .notOp (operand.mendedExpression id)
  | .assignment .. | .condition .. | .statementList _ => .identifier id
  | other => other

def mendedExpressions (id : Token) : List Node → List Node
  | [] => []
  | item :: more =>
    if (firstMisplaced ((.expression, item) :: item.parts)).isSome then
      item.mendedExpression id :: more
    else item :: mendedExpressions id more

end

mutual

/-- The tree with an identifier in place of the first statement in its expressions. -/
def Node.mended (id : Token) : Node → Node
  | .assignment op target value =>
    if (firstMisplaced ((.expression, target) :: target.parts)).isSome then
      .assignment op (target.mendedExpression id) value
    else .assignment op target (value.mendedExpression id)
  | .call name arguments (some block) =>
    if (firstMisplaced (partsOfAll .expression arguments)).isSome then
      .call name (mendedExpressions id arguments) (some block)
    else .call name arguments (some (mendedStatements id block))
  | .condition test body alternative =>
    if (firstMisplaced ((.expression, test) :: test.parts)).isSome then
      .condition (test.mendedExpression id) body alternative
    else if (firstMisplaced (partsOfAll .statement body)).isSome then
      .condition test (mendedStatements id body) alternative
    else .condition test body (alternative.mended id)
  | .statementList items => .statementList (mendedStatements id items)
  | other => other.mendedExpression id

def Alternative.mended (id : Token) : Alternative → Alternative
  | .absent => .absent
  | .elseIf test body alternative =>
    if (firstMisplaced ((.expression, test) :: test.parts)).isSome then
      .elseIf (test.mendedExpression id) body alternative
    else if (firstMisplaced (partsOfAll .statement body)).isSome then
      .elseIf test (mendedStatements id body) alternative
    else .elseIf test body (alternative.mended id)
  | .elseBlock body => .elseBlock (mendedStatements id body)

def mendedStatements (id : Token) : List Node → List Node
  | [] => []
  | statement :: more =>
    if (firstMisplaced statement.parts).isSome then statement.mended id :: more
    else statement :: mendedStatements id more

end

namespace Piece

/-- Nowhere does a layout break off. -/
def Limits.unbroken : Limits := { admitted := fun _ => false }

@[simp] theorem unbroken_reached (level : Nat) : Limits.unbroken.reached level = true := rfl

/-- Two layouts that agree but for one place. There the first one breaks off, for the first time and
at a statement of this name, and the second one has a token. -/
def Mends (name : String) (id : Token) (ps qs : List Piece) : Prop :=
  ∃ before after, allMeet .unbroken before ∧ ps = before ++ .stop (.misplaced name) :: after ∧
    qs = before ++ ofToken id :: after

namespace Mends
variable {name : String} {id : Token} {ps qs : List Piece}

theorem here : Mends name id [.stop (.misplaced name)] [ofToken id] := ⟨[], [], rfl, rfl, rfl⟩

theorem before (mends : Mends name id ps qs) (rest : List Piece) :
    Mends name id (ps ++ rest) (qs ++ rest) := by
  obtain ⟨pre, post, unbroken, rfl, rfl⟩ := mends
  exact ⟨pre, post ++ rest, unbroken, by simp, by simp⟩

theorem behind (mends : Mends name id ps qs) (front : List Piece)
    (unbroken : allMeet .unbroken front) : Mends name id (front ++ ps) (front ++ qs) := by
  obtain ⟨pre, post, unbroken', rfl, rfl⟩ := mends
  exact ⟨front ++ pre, post, by simp [unbroken, unbroken'], by simp, by simp⟩

theorem cons (mends : Mends name id ps qs) {p : Piece} (unbroken : p.meets .unbroken) :
    Mends name id (p :: ps) (p :: qs) :=
  mends.behind [p] (by simpa [allMeet] using unbroken)

theorem grouped (mends : Mends name id ps qs) (parens : Bool) :
    Mends name id (grouped parens ps) (grouped parens qs) := by
  cases parens with
  | false => exact mends
  | true => exact (mends.cons rfl).before _

theorem guarded (mends : Mends name id ps qs) : Mends name id (guarded ps) (guarded qs) :=
  (((mends.cons rfl).cons rfl).cons rfl).before _

theorem braced (mends : Mends name id ps qs) (level : Nat) :
    Mends name id (braced level ps) (braced level qs) :=
  ((mends.cons rfl).cons rfl).before _

/-- The text breaks off at the statement, and goes on with the token if that stands there. -/
theorem rendering (mends : Mends name id ps qs) (width : Nat) :
    (Rendering.ofLayout width ps).brokenOff = some (.misplaced name) ∧
      ∃ rest, (Rendering.ofLayout width qs).text =
        (Rendering.ofLayout width ps).text ++ id.value ++ rest := by
  obtain ⟨pre, post, unbroken, rfl, rfl⟩ := mends
  have unbroken : whole pre := (whole_eq pre).trans unbroken
  have all : ∀ p ∈ pre, p.break?.isNone := List.all_eq_true.mp unbroken
  have visibleFirst : visible (pre ++ .stop (.misplaced name) :: post) = pre := by
    rw [visible, List.takeWhile_append_of_pos all]
    exact List.append_nil pre
  have visibleSecond : visible (pre ++ ofToken id :: post) = pre ++ ofToken id :: visible post := by
    rw [visible, List.takeWhile_append_of_pos all]
    rfl
  constructor
  · rw [Rendering.ofLayout, List.findSome?_append, findSome_break_of_whole unbroken]
    rfl
  · refine ⟨String.ofList ((visible post).flatMap (Piece.text width)), ?_⟩
    have token : (ofToken id).text width = id.value.toList := rfl
    apply String.toList_inj.mp
    simp [Rendering.ofLayout, visibleFirst, visibleSecond, token]

end Mends
end Piece

/-- The operators have a precedence, and no call inside an expression has a block. -/
def writable (nodes : List (Position × Node)) : Prop :=
  ∀ x ∈ nodes, (∀ kind ∈ x.2.operator?, kind.precedence?.isSome) ∧ x.2.hidesBlock x.1 = false

theorem writable_cons {x : Position × Node} {nodes : List (Position × Node)} :
    writable (x :: nodes) ↔
      ((∀ kind ∈ x.2.operator?, kind.precedence?.isSome) ∧ x.2.hidesBlock x.1 = false) ∧
        writable nodes :=
  List.forall_mem_cons

theorem writable_append {ns ms : List (Position × Node)} :
    writable (ns ++ ms) ↔ writable ns ∧ writable ms :=
  List.forall_mem_append

namespace Node
open Piece

/-- Nodes that can be written and of which none is misplaced are not to blame for a break. -/
theorem admits_of_writable {nodes : List (Position × Node)} (able : writable nodes)
    (fit : firstMisplaced nodes = none) : admits Limits.unbroken.admitted nodes := by
  rw [firstMisplaced, Option.map_eq_none_iff, List.find?_eq_none] at fit
  refine List.all_eq_true.mpr fun x member => ?_
  have inPlace := fit x member
  obtain ⟨position, n⟩ := x
  cases n with
  | binaryOp op left right =>
    have precedence : op.kind.precedence?.isSome := (able _ member).1 op.kind rfl
    simp [break?, Option.isNone_eq_false_iff.mpr precedence]
  | assignment | condition | statementList =>
    cases position with
    | statement => rfl
    | expression => exact absurd rfl inPlace
  | _ => cases position <;> rfl

theorem expression_unbroken {e : Node} (able : writable ((.expression, e) :: e.parts))
    (fit : firstMisplaced ((.expression, e) :: e.parts) = none) :
    allMeet .unbroken e.expressionLayout := by
  obtain ⟨here, below⟩ := Bool.and_eq_true_iff.mp (admits_of_writable able fit)
  exact expression_meets e here below

theorem list_unbroken {items : List Node} (able : writable (partsOfAll .expression items))
    (fit : firstMisplaced (partsOfAll .expression items) = none) :
    allMeet .unbroken (listLayout items) :=
  list_meets items (admits_of_writable able fit)

theorem statement_unbroken {statement : Node}
    (able : writable ((.statement, statement) :: statement.parts))
    (fit : firstMisplaced statement.parts = none) (level : Nat) :
    allMeet .unbroken (statement.statementLayout level) := by
  rw [← firstMisplaced_statement statement] at fit
  obtain ⟨here, below⟩ := Bool.and_eq_true_iff.mp (admits_of_writable able fit)
  exact statement_meets (fun _ => rfl) level statement here below

theorem statements_unbroken {body : List Node} (able : writable (partsOfAll .statement body))
    (fit : firstMisplaced (partsOfAll .statement body) = none) (level : Nat) :
    allMeet .unbroken (statementsLayout level body) :=
  statements_meets (fun _ => rfl) level body (admits_of_writable able fit)

section
variable (id : Token) (e : Node) (op : TokenKind)

theorem mended_binaryOp (op : Token) (left right : Node) :
    ∃ l r, (binaryOp op left right).mendedExpression id = .binaryOp op l r := by
  rw [mendedExpression]
  split
  · exact ⟨_, _, rfl⟩
  · exact ⟨_, _, rfl⟩

@[simp] theorem operator?_mended : (e.mendedExpression id).operator? = e.operator? := by
  cases e with
  | binaryOp op left right =>
    obtain ⟨l, r, same⟩ := mended_binaryOp id op left right
    rw [same, operator?, operator?]
  | _ => rfl

@[simp] theorem isNegation_mended : (e.mendedExpression id).isNegation = e.isNegation := by
  cases e with
  | binaryOp op left right =>
    obtain ⟨l, r, same⟩ := mended_binaryOp id op left right
    rw [same]
    rfl
  | _ => rfl

@[simp] theorem looser_mended (precedence : Nat) :
    (e.mendedExpression id).looser precedence = e.looser precedence := by
  rw [looser, operator?_mended, looser]

@[simp] theorem leftNeedsParens_mended :
    (e.mendedExpression id).leftNeedsParens op = e.leftNeedsParens op := by
  rw [leftNeedsParens_eq, isNegation_mended, looser_mended, leftNeedsParens_eq]

@[simp] theorem rightNeedsParens_mended :
    (e.mendedExpression id).rightNeedsParens op = e.rightNeedsParens op := by
  rw [rightNeedsParens_eq, looser_mended, rightNeedsParens_eq]

@[simp] theorem notNeedsParens_mended :
    (e.mendedExpression id).notNeedsParens = e.notNeedsParens := by
  rw [notNeedsParens_eq, looser_mended, notNeedsParens_eq]

end

variable (id : Token) {n : Node}

theorem unranked_eq_nil {op : Token} {left right : Node}
    (here : ∀ kind ∈ (binaryOp op left right).operator?, kind.precedence?.isSome)
    (below : writable (binaryOp op left right).parts) : unranked op left right = [] := by
  obtain ⟨inLeft, inRight⟩ := writable_append.mp below
  rw [unranked, List.map_eq_nil_iff, List.filter_eq_nil_iff]
  intro kind compared bare
  simp only [List.cons_append, List.mem_cons, List.mem_append, Option.mem_toList] at compared
  have ranked : kind.precedence?.isSome := by
    rcases compared with rfl | first | second
    · exact here _ rfl
    · exact (writable_cons.mp inLeft).1.1 kind first
    · exact (writable_cons.mp inRight).1.1 kind second
  rw [Option.isNone_iff_eq_none.mp bare] at ranked
  cases ranked

mutual

theorem expression_mends : (e : Node) → writable ((.expression, e) :: e.parts) →
    firstMisplaced ((.expression, e) :: e.parts) = some n →
    Mends n.name id e.expressionLayout (e.mendedExpression id).expressionLayout
  | .arrayAccess name index, able, found => by
    have inside := expression_mends index (writable_cons.mp able).2 found
    exact ((inside.cons rfl).cons rfl).before _
  | .binaryOp op left right, able, found => by
    obtain ⟨⟨ranked, _⟩, below⟩ := writable_cons.mp able
    obtain ⟨inLeft, inRight⟩ := writable_append.mp below
    have found : firstMisplaced (binaryOp op left right).parts = some n := found
    have compared := unranked_eq_nil ranked below
    rw [parts, firstMisplaced_append] at found
    rcases Option.or_eq_some_iff.mp found with here | ⟨none, later⟩
    · have inside := (expression_mends left inLeft here).grouped (left.leftNeedsParens op.kind)
      have same : unranked op (left.mendedExpression id) right = unranked op left right := by
        rw [unranked, operator?_mended, unranked]
      rw [mendedExpression, if_pos (Option.isSome_of_eq_some here), expressionLayout,
        expressionLayout, leftNeedsParens_mended, same, compared]
      exact (inside.before _).before _
    · have inside := (expression_mends right inRight later).grouped (right.rightNeedsParens op.kind)
      have same : unranked op left (right.mendedExpression id) = unranked op left right := by
        rw [unranked, operator?_mended, unranked]
      have operand := expression_unbroken inLeft none
      rw [mendedExpression, if_neg (Option.not_isSome_iff_eq_none.mpr none), expressionLayout,
        expressionLayout, rightNeedsParens_mended, same, compared]
      exact inside.behind _ (by simp [operand])
  | .call name arguments none, able, found => by
    have inside := list_mends arguments (writable_cons.mp able).2 found
    exact ((inside.cons rfl).cons rfl).before _
  | .call name arguments (some block), able, _ => by
    cases (writable_cons.mp able).1.2
  | .expressionList items, able, found => by
    have inside := list_mends items (writable_cons.mp able).2 found
    exact (inside.cons rfl).before _
  | .notOp operand, able, found => by
    have inside := expression_mends operand (writable_cons.mp able).2 found
    rw [mendedExpression, expressionLayout, expressionLayout, notNeedsParens_mended]
    exact (inside.grouped _).cons rfl
  | .assignment .., _, found | .condition .., _, found | .statementList _, _, found => by
    cases found
    exact Mends.here
  | .identifier _, _, found | .literal _, _, found | .scopeAccess .., _, found => by cases found

theorem list_mends : (items : List Node) → writable (partsOfAll .expression items) →
    firstMisplaced (partsOfAll .expression items) = some n →
    Mends n.name id (listLayout items) (listLayout (mendedExpressions id items))
  | [], _, found => by cases found
  | item :: more, able, found => by
    obtain ⟨first, others⟩ := writable_append.mp able
    rw [partsOfAll, firstMisplaced_append] at found
    rcases Option.or_eq_some_iff.mp found with here | ⟨none, later⟩
    · rw [mendedExpressions, if_pos (Option.isSome_of_eq_some here)]
      exact (expression_mends item first here).before _
    · rw [mendedExpressions, if_neg (Option.not_isSome_iff_eq_none.mpr none)]
      exact (more_mends more others later).behind _ (expression_unbroken first none)

theorem more_mends : (items : List Node) → writable (partsOfAll .expression items) →
    firstMisplaced (partsOfAll .expression items) = some n →
    Mends n.name id (moreLayout items) (moreLayout (mendedExpressions id items))
  | [], _, found => by cases found
  | item :: more, able, found => by
    obtain ⟨first, others⟩ := writable_append.mp able
    rw [partsOfAll, firstMisplaced_append] at found
    rcases Option.or_eq_some_iff.mp found with here | ⟨none, later⟩
    · rw [mendedExpressions, if_pos (Option.isSome_of_eq_some here)]
      exact (((expression_mends item first here).cons rfl).cons rfl).before _
    · rw [mendedExpressions, if_neg (Option.not_isSome_iff_eq_none.mpr none)]
      have mends := (more_mends more others later).behind _ (expression_unbroken first none)
      exact (mends.cons rfl).cons rfl

end

/-- An expression on a line of its own. -/
theorem line_mends (level : Nat) (e : Node) (visible : e.hidesBlock .expression = false)
    (able : writable ((.statement, e) :: e.parts))
    (found : firstMisplaced ((.expression, e) :: e.parts) = some n) :
    Mends n.name id (.indent level :: e.expressionLayout ++ [.newline])
      (.indent level :: (e.mendedExpression id).expressionLayout ++ [.newline]) := by
  obtain ⟨⟨ranked, _⟩, below⟩ := writable_cons.mp able
  have inside := expression_mends id e (writable_cons.mpr ⟨⟨ranked, visible⟩, below⟩) found
  exact (inside.cons rfl).before _

mutual

theorem statement_mends (level : Nat) : (statement : Node) →
    writable ((.statement, statement) :: statement.parts) →
    firstMisplaced statement.parts = some n →
    Mends n.name id (statement.statementLayout level)
      ((statement.mended id).statementLayout level)
  | .assignment op target value, able, found => by
    obtain ⟨inTarget, inValue⟩ := writable_append.mp (writable_cons.mp able).2
    rw [parts, firstMisplaced_append] at found
    rcases Option.or_eq_some_iff.mp found with here | ⟨none, later⟩
    · have inside := expression_mends id target inTarget here
      rw [mended, if_pos (Option.isSome_of_eq_some here)]
      exact (((inside.cons rfl).before _).before _).before _
    · have inside := expression_mends id value inValue later
      have front := expression_unbroken inTarget none
      rw [mended, if_neg (Option.not_isSome_iff_eq_none.mpr none)]
      exact (inside.behind _ (by simp [front])).before _
  | .call name arguments none, able, found => by
    have inside := list_mends id arguments (writable_cons.mp able).2 found
    exact ((((inside.cons rfl).cons rfl).before _).cons rfl).before _
  | .call name arguments (some block), able, found => by
    obtain ⟨inArguments, inBlock⟩ := writable_append.mp (writable_cons.mp able).2
    rw [parts, firstMisplaced_append] at found
    rcases Option.or_eq_some_iff.mp found with here | ⟨none, later⟩
    · have inside := list_mends id arguments inArguments here
      rw [mended, if_pos (Option.isSome_of_eq_some here)]
      exact (((((inside.cons rfl).cons rfl).before _).cons rfl).before _).before _
    · have inside := statements_mends (level + 1) block inBlock later
      have front := list_unbroken inArguments none
      rw [mended, if_neg (Option.not_isSome_iff_eq_none.mpr none)]
      exact (((inside.braced level).cons rfl).behind _
        (by simp [expressionLayout, front])).before _
  | .condition test body alternative, able, found => by
    obtain ⟨inGuarded, inAlternative⟩ := writable_append.mp (writable_cons.mp able).2
    obtain ⟨inTest, inBody⟩ := writable_append.mp inGuarded
    rw [parts, firstMisplaced_append, firstMisplaced_append, Option.or_assoc] at found
    rcases Option.or_eq_some_iff.mp found with here | ⟨noneTest, later⟩
    · have inside := expression_mends id test inTest here
      rw [mended, if_pos (Option.isSome_of_eq_some here)]
      exact ((((inside.guarded.cons rfl).before _).before _).before _)
    · have front := expression_unbroken inTest noneTest
      rw [mended, if_neg (Option.not_isSome_iff_eq_none.mpr noneTest)]
      rcases Option.or_eq_some_iff.mp later with here | ⟨noneBody, later⟩
      · have inside := statements_mends (level + 1) body inBody here
        rw [if_pos (Option.isSome_of_eq_some here)]
        exact (((inside.braced level).behind _ (by simp [front])).before _).before _
      · have inside := alternative_mends level alternative inAlternative later
        have lines := statements_unbroken inBody noneBody (level + 1)
        rw [if_neg (Option.not_isSome_iff_eq_none.mpr noneBody)]
        exact (inside.behind _ (by simp [front, lines])).before _
  | .statementList items, able, found => by
    have inside := statements_mends (level + 1) items (writable_cons.mp able).2 found
    exact ((inside.braced level).cons rfl).before _
  | .binaryOp op left right, able, found => by
    have line := line_mends id level (.binaryOp op left right) rfl able found
    obtain ⟨l, r, same⟩ := mended_binaryOp id op left right
    rw [same] at line
    rw [mended, same]
    · exact line
    all_goals exact fun _ => by simp
  | .arrayAccess name index, able, found =>
    line_mends id level (.arrayAccess name index) rfl able found
  | .expressionList items, able, found => line_mends id level (.expressionList items) rfl able found
  | .notOp operand, able, found => line_mends id level (.notOp operand) rfl able found
  | .identifier _, _, found | .literal _, _, found | .scopeAccess .., _, found => by cases found

theorem alternative_mends (level : Nat) : (alternative : Alternative) →
    writable alternative.parts → firstMisplaced alternative.parts = some n →
    Mends n.name id (alternativeLayout level alternative)
      (alternativeLayout level (alternative.mended id))
  | .absent, _, found => by cases found
  | .elseIf test body alternative, able, found => by
    obtain ⟨inGuarded, inAlternative⟩ := writable_append.mp able
    obtain ⟨inTest, inBody⟩ := writable_append.mp inGuarded
    rw [Alternative.parts, firstMisplaced_append, firstMisplaced_append, Option.or_assoc] at found
    rcases Option.or_eq_some_iff.mp found with here | ⟨noneTest, later⟩
    · have inside := expression_mends id test inTest here
      rw [Alternative.mended, if_pos (Option.isSome_of_eq_some here)]
      exact (((((inside.guarded.cons rfl).cons rfl).cons rfl).before _).before _)
    · have front := expression_unbroken inTest noneTest
      rw [Alternative.mended, if_neg (Option.not_isSome_iff_eq_none.mpr noneTest)]
      rcases Option.or_eq_some_iff.mp later with here | ⟨noneBody, later⟩
      · have inside := statements_mends (level + 1) body inBody here
        rw [if_pos (Option.isSome_of_eq_some here)]
        exact ((inside.braced level).behind _ (by simp [front])).before _
      · have inside := alternative_mends level alternative inAlternative later
        have lines := statements_unbroken inBody noneBody (level + 1)
        rw [if_neg (Option.not_isSome_iff_eq_none.mpr noneBody)]
        exact inside.behind _ (by simp [front, lines])
  | .elseBlock body, able, found => by
    have inside := statements_mends (level + 1) body able found
    exact (((inside.braced level).cons rfl).cons rfl).cons rfl

theorem statements_mends (level : Nat) : (body : List Node) →
    writable (partsOfAll .statement body) →
    firstMisplaced (partsOfAll .statement body) = some n →
    Mends n.name id (statementsLayout level body)
      (statementsLayout level (mendedStatements id body))
  | [], _, found => by cases found
  | statement :: more, able, found => by
    obtain ⟨first, others⟩ := writable_append.mp able
    rw [partsOfAll, firstMisplaced_append, firstMisplaced_statement] at found
    rcases Option.or_eq_some_iff.mp found with here | ⟨none, later⟩
    · rw [mendedStatements, if_pos (Option.isSome_of_eq_some here)]
      exact (statement_mends level statement first here).before _
    · have front := statement_unbroken first none level
      rw [mendedStatements, if_neg (Option.not_isSome_iff_eq_none.mpr none)]
      exact (statements_mends level more others later).behind _ front

end

theorem layout_of_statement {t : Node} (statement : t.isStatement) :
    t.layout = t.statementLayout 0 := by
  cases t with
  | assignment | call | condition => rfl
  | _ => cases statement

/-- The root stays a node of its kind. -/
theorem isStatement_mended (t : Node) : (t.mended id).isStatement = t.isStatement := by
  cases t with
  | assignment op target value => rw [mended]; split <;> rfl
  | call name arguments block =>
    cases block with
    | none => rfl
    | some block => rw [mended]; split <;> rfl
  | condition test body alternative =>
    rw [mended]
    split
    · rfl
    · split <;> rfl
  | binaryOp op left right =>
    obtain ⟨l, r, same⟩ := mended_binaryOp id op left right
    have kind := congrArg isStatement same
    exact kind
  | _ => rfl

theorem layout_mends (t : Node) (able : writable t.placed)
    (found : firstMisplaced t.parts = some n) : Mends n.name id t.layout (t.mended id).layout := by
  obtain ⟨⟨ranked, _⟩, below⟩ := writable_cons.mp able
  have alone (visible : t.hidesBlock .expression = false) :
      writable ((.expression, t) :: t.parts) := writable_cons.mpr ⟨⟨ranked, visible⟩, below⟩
  cases t with
  | statementList items => exact statements_mends id 0 items below found
  | assignment | call | condition =>
    rw [layout_of_statement rfl, layout_of_statement (isStatement_mended id _)]
    exact statement_mends id 0 _ able found
  | binaryOp op left right =>
    have inside := expression_mends id (.binaryOp op left right) (alone rfl) found
    obtain ⟨l, r, same⟩ := mended_binaryOp id op left right
    have layout : (mended id (.binaryOp op left right)).layout =
        (binaryOp op l r).expressionLayout := congrArg layout same
    rw [same] at inside
    rwa [layout]
  | arrayAccess name index =>
    exact expression_mends id (.arrayAccess name index) (alone rfl) found
  | expressionList items => exact expression_mends id (.expressionList items) (alone rfl) found
  | notOp operand => exact expression_mends id (.notOp operand) (alone rfl) found
  | identifier | literal | scopeAccess => cases found

/-- A layout with no statement in an expression does not break off. -/
theorem layout_unbroken {t : Node} (able : writable t.placed)
    (fit : firstMisplaced t.parts = none) : allMeet .unbroken t.layout := by
  rw [← firstMisplaced_statement t] at fit
  exact layout_meets (fun _ => rfl) t (admits_of_writable able fit)

end Node

/-- Where the operators have a precedence and no call inside an expression has a block, a text ends
before the first statement in an expression, of which there is one warning. With an identifier in
place of that statement the text goes on with the identifier. Without such a statement there is no
warning. The text is written unless some line before its end is to have too much padding. -/
theorem misplaced_statement_truncates (t : Node) (width : Nat)
    (ranked : ∀ x ∈ t.placed, ∀ kind ∈ x.2.operator?, kind.precedence?.isSome)
    (visible : ∀ x ∈ t.parts, x.2.hidesBlock x.1 = false) :
    (Checked.format width t =
        if t.overpadded width then Checked.fault .padding else .ok (t.format width)) ∧
      (∀ n, firstMisplaced t.parts = some n →
        (t.format width).events = [.statementMisplaced n.name] ∧
          ∀ id : Token, ∃ rest,
            ((t.mended id).format width).text = (t.format width).text ++ id.value ++ rest) ∧
      (firstMisplaced t.parts = none → (t.format width).events = []) := by
  have able : writable t.placed := by
    refine List.forall_mem_cons.mpr ⟨⟨ranked _ List.mem_cons_self, ?_⟩, fun x member => ?_⟩
    · cases t <;> rfl
    · exact ⟨ranked x (List.mem_cons_of_mem _ member), visible x member⟩
  have broken (n : Node) (found : firstMisplaced t.parts = some n) :
      (t.format width).brokenOff = some (.misplaced n.name) :=
    ((Node.layout_mends (.endOfInput .unknown) t able found).rendering width).1
  have unbroken (fit : firstMisplaced t.parts = none) : (t.format width).brokenOff = none := by
    refine Piece.findSome_break_of_whole ?_
    rw [Piece.whole_eq]
    exact Node.layout_unbroken able fit
  refine ⟨?_, fun n found => ⟨?_, fun id => ?_⟩, fun fit => ?_⟩
  · rw [Checked.format]
    cases found : firstMisplaced t.parts with
    | none => rw [unbroken found]
    | some n => rw [broken n found]
  · rw [Rendering.events, broken n found]
  · exact ((Node.layout_mends id t able found).rendering width).2
  · rw [Rendering.events, unbroken fit]

/-- `if (a) { f() { x = [!b, c[d = 1], e = 2] } }`: the first of two assignments in expressions,
under an index, a list, a call and a condition. -/
theorem misplaced_statement_truncates_nested :
    let name value : Token := ⟨.identifier, value, .unknown⟩
    let sets target value :=
      Node.assignment ⟨.equal, "=", .unknown⟩ (.identifier (name target)) value
    let one := Node.literal ⟨.integer, "1", .unknown⟩
    let t := Node.condition (.identifier (name "a"))
      [.call (name "f") [] (some [sets "x" (.expressionList [.notOp (.identifier (name "b")),
        .arrayAccess (name "c") (sets "d" one), sets "e" one])])] .absent
    (t.format 2).text = "if (a) \x7b\n  f() \x7b\n    x = [!b, c[" ∧
      (t.format 2).events = [.statementMisplaced "Assignment"] ∧
      ∀ id : Token, ∃ rest,
        ((t.mended id).format 2).text = (t.format 2).text ++ id.value ++ rest := by
  intro name sets one t
  have first : firstMisplaced t.parts = some (sets "d" one) := by rfl
  obtain ⟨_, truncated, _⟩ := misplaced_statement_truncates t 2 (by decide) (by decide)
  obtain ⟨warned, prolonged⟩ := truncated (sets "d" one) first
  exact ⟨by decide +kernel, warned, prolonged⟩

/-- `f() { a = [b = 1] }` with more spaces in a level than can be asked for at once: the run is at
fault before it comes to the misplaced assignment. -/
theorem wide_truncation_at_fault :
    let name value : Token := ⟨.identifier, value, .unknown⟩
    let sets target value :=
      Node.assignment ⟨.equal, "=", .unknown⟩ (.identifier (name target)) value
    let one := Node.literal ⟨.integer, "1", .unknown⟩
    let t := Node.call (name "f") [] (some [sets "a" (.expressionList [sets "b" one])])
    (∀ x ∈ t.placed, ∀ kind ∈ x.2.operator?, kind.precedence?.isSome) ∧
      (∀ x ∈ t.parts, x.2.hidesBlock x.1 = false) ∧
      firstMisplaced t.parts = some (sets "b" one) ∧
      Checked.format 0x10000 t = Checked.fault .padding := by
  intro name sets one t
  exact ⟨by decide, by decide, rfl, if_pos (by decide +kernel)⟩

end ShiFormat
