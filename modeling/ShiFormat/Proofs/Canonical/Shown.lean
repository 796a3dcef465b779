import ShiFormat.Trace
import ShiFormat.Proofs.Canonical.Whole

/-!
What the text of a tree shows. A layout leaves out the blocks of the calls inside expressions, and
tells nothing about them. Where it does not break off it has all other tokens of the tree.
-/
namespace ShiFormat

def Break.isMisplaced : Break → Bool
  | .misplaced _ => true
  | .unranked _ => false

mutual

/-- The expression without the blocks of the calls in it. A statement among them is left as it is: a
text ends before it. -/
def Node.shownExpression : Node → Node
  | .arrayAccess id index => .arrayAccess id index.shownExpression
  | .binaryOp op left right => .binaryOp op left.shownExpression right.shownExpression
  | .call id arguments _ => .call id (shownExpressions arguments) none
  | .expressionList items => .expressionList (shownExpressions items)
  | .notOp operand => .notOp operand.shownExpression
  | other => other

def shownExpressions : List Node → List Node
  | [] => []
  | item :: more => item.shownExpression :: shownExpressions more

end

mutual

/-- The tree without the blocks of the calls inside its expressions. -/
def Node.shown : Node → Node
  | .assignment op target value => .assignment op target.shownExpression value.shownExpression
  | .call id arguments none => .call id (shownExpressions arguments) none
  | .call id arguments (some block) =>
    .call id (shownExpressions arguments) (some (shownStatements block))
  | .condition test body alternative =>
    .condition test.shownExpression (shownStatements body) alternative.shown
  | .statementList items => .statementList (shownStatements items)
  | other => other.shownExpression

def Alternative.shown : Alternative → Alternative
  | .absent => .absent
  | .elseIf test body alternative =>
    .elseIf test.shownExpression (shownStatements body) alternative.shown
  | .elseBlock body => .elseBlock (shownStatements body)

def shownStatements : List Node → List Node
  | [] => []
  | statement :: more => statement.shown :: shownStatements more

end

namespace Node
open Piece

section
variable (e : Node) (op : TokenKind)

@[simp] theorem operator?_shown : e.shownExpression.operator? = e.operator? := by
  cases e <;> rfl

@[simp] theorem leftNeedsParens_shown :
    e.shownExpression.leftNeedsParens op = e.leftNeedsParens op := by
  cases e <;> rfl

@[simp] theorem rightNeedsParens_shown :
    e.shownExpression.rightNeedsParens op = e.rightNeedsParens op := by
  cases e <;> rfl

@[simp] theorem notNeedsParens_shown : e.shownExpression.notNeedsParens = e.notNeedsParens := by
  cases e <;> rfl

end

mutual

theorem expressionLayout_shown : (e : Node) →
    e.shownExpression.expressionLayout = e.expressionLayout
  | .arrayAccess id index => by
    simp [shownExpression, expressionLayout, expressionLayout_shown index]
  | .binaryOp op left right => by
    simp [shownExpression, expressionLayout, unranked, expressionLayout_shown left,
      expressionLayout_shown right]
  | .call id arguments _ => by
    simp [shownExpression, expressionLayout, listLayout_shown arguments]
  | .expressionList items => by
    simp [shownExpression, expressionLayout, listLayout_shown items]
  | .notOp operand => by
    simp [shownExpression, expressionLayout, expressionLayout_shown operand]
  | .identifier _ | .literal _ | .scopeAccess .. => rfl
  | .assignment .. | .condition .. | .statementList _ => rfl

theorem listLayout_shown : (items : List Node) →
    listLayout (shownExpressions items) = listLayout items
  | [] => rfl
  | item :: more => by
    simp [shownExpressions, listLayout, expressionLayout_shown item, moreLayout_shown more]

theorem moreLayout_shown : (items : List Node) →
    moreLayout (shownExpressions items) = moreLayout items
  | [] => rfl
  | item :: more => by
    simp [shownExpressions, moreLayout, expressionLayout_shown item, moreLayout_shown more]

end

mutual

theorem statementLayout_shown (level : Nat) : (statement : Node) →
    statement.shown.statementLayout level = statement.statementLayout level
  | .assignment op target value => by
    simp [shown, statementLayout, expressionLayout_shown target, expressionLayout_shown value]
  | .call id arguments none => by
    simp [shown, statementLayout, expressionLayout, listLayout_shown arguments]
  | .call id arguments (some block) => by
    simp [shown, statementLayout, expressionLayout, listLayout_shown arguments,
      statementsLayout_shown (level + 1) block]
  | .condition test body alternative => by
    simp [shown, statementLayout, expressionLayout_shown test,
      statementsLayout_shown (level + 1) body, alternativeLayout_shown level alternative]
  | .statementList items => by
    simp [shown, statementLayout, statementsLayout_shown (level + 1) items]
  | .arrayAccess .. | .binaryOp .. | .expressionList _ | .notOp _ =>
    congrArg (fun line => .indent level :: line ++ [.newline]) (expressionLayout_shown _)
  | .identifier _ | .literal _ | .scopeAccess .. => rfl

theorem alternativeLayout_shown (level : Nat) : (alternative : Alternative) →
    alternativeLayout level alternative.shown = alternativeLayout level alternative
  | .absent => rfl
  | .elseIf test body alternative => by
    simp [Alternative.shown, alternativeLayout, expressionLayout_shown test,
      statementsLayout_shown (level + 1) body, alternativeLayout_shown level alternative]
  | .elseBlock body => by
    simp [Alternative.shown, alternativeLayout, statementsLayout_shown (level + 1) body]

theorem statementsLayout_shown (level : Nat) : (body : List Node) →
    statementsLayout level (shownStatements body) = statementsLayout level body
  | [] => rfl
  | statement :: more => by
    simp [shownStatements, statementsLayout, statementLayout_shown level statement,
      statementsLayout_shown level more]

end

theorem layout_shown (n : Node) : n.shown.layout = n.layout := by
  cases n with
  | statementList items => exact statementsLayout_shown 0 items
  | call id arguments block => cases block <;> exact statementLayout_shown 0 (.call id arguments _)
  | assignment | condition => exact statementLayout_shown 0 _
  | _ => exact expressionLayout_shown _

end Node

namespace Piece

/-- The pieces of the tokens are among the pieces, in order. -/
def Shows (ts : List Token) (ps : List Piece) : Prop := (ts.map ofToken).Sublist ps

variable {ts us : List Token} {ps qs : List Piece}

theorem shows_nil : Shows [] ps := List.nil_sublist ps

theorem Shows.token (h : Shows ts ps) (t : Token) : Shows (t :: ts) (ofToken t :: ps) :=
  h.cons_cons (ofToken t)

theorem Shows.skip (h : Shows ts ps) (p : Piece) : Shows ts (p :: ps) := h.cons p

theorem Shows.append (h : Shows ts ps) (h' : Shows us qs) : Shows (ts ++ us) (ps ++ qs) := by
  rw [Shows, List.map_append]
  exact List.Sublist.append h h'

theorem Shows.before (h : Shows ts ps) (qs : List Piece) : Shows ts (ps ++ qs) :=
  h.trans (List.sublist_append_left ps qs)

theorem Shows.behind (h : Shows ts ps) (qs : List Piece) : Shows ts (qs ++ ps) :=
  h.trans (List.sublist_append_right qs ps)

theorem Shows.grouped (h : Shows ts ps) (parens : Bool) : Shows ts (grouped parens ps) := by
  cases parens with
  | false => exact h
  | true => exact (h.skip .openGroup).before [.closeGroup]

theorem Shows.guarded (h : Shows ts ps) : Shows ts (guarded ps) :=
  (((h.skip _).skip _).skip _).before _

theorem Shows.braced (h : Shows ts ps) (level : Nat) : Shows ts (braced level ps) :=
  ((h.skip _).skip _).before _

theorem shows_spaced (t : Token) : Shows [t] (spaced t) :=
  (shows_nil.token t).skip .space

end Piece

namespace Node
open Piece

mutual

theorem expression_shows : (e : Node) → whole e.expressionLayout →
    Shows e.shownExpression.tokens e.expressionLayout
  | .arrayAccess id index, full => by
    have inside := expression_shows index (by simpa [whole_eq, expressionLayout] using full)
    exact ((inside.skip _).token id).before _
  | .binaryOp op left right, full => by
    obtain ⟨_, whole_left, whole_right⟩ : whole (unranked op left right) ∧
        whole left.expressionLayout ∧ whole right.expressionLayout := by
      simpa [whole_eq, expressionLayout, and_assoc] using full
    have first := (expression_shows left whole_left).grouped (left.leftNeedsParens op.kind)
    have second := (expression_shows right whole_right).grouped (right.rightNeedsParens op.kind)
    rw [shownExpression, tokens, ← List.singleton_append, ← List.append_assoc]
    exact ((first.behind _).append (shows_spaced op)).append second
  | .call id arguments _, full => by
    have inside := list_shows arguments (by simpa [whole_eq, expressionLayout] using full)
    exact ((inside.skip _).token id).before _
  | .expressionList items, full => by
    have inside := list_shows items (by simpa [whole_eq, expressionLayout] using full)
    exact (inside.skip _).before _
  | .notOp operand, full => by
    have inside := expression_shows operand (by simpa [whole_eq, expressionLayout] using full)
    exact (inside.grouped _).skip _
  | .identifier id, _ | .literal id, _ => shows_nil.token id
  | .scopeAccess id inner, _ => ((shows_nil.token inner).skip _).token id
  | .assignment .., full | .condition .., full | .statementList _, full => by
    simp [whole_eq, expressionLayout] at full

theorem list_shows : (items : List Node) → whole (listLayout items) →
    Shows (tokensOfAll (shownExpressions items)) (listLayout items)
  | [], _ => shows_nil
  | item :: more, full => by
    obtain ⟨first, others⟩ : whole item.expressionLayout ∧ whole (moreLayout more) := by
      simpa [whole_eq, listLayout] using full
    exact (expression_shows item first).append (more_shows more others)

theorem more_shows : (items : List Node) → whole (moreLayout items) →
    Shows (tokensOfAll (shownExpressions items)) (moreLayout items)
  | [], _ => shows_nil
  | item :: more, full => by
    obtain ⟨first, others⟩ : whole item.expressionLayout ∧ whole (moreLayout more) := by
      simpa [whole_eq, moreLayout] using full
    exact (((expression_shows item first).skip _).skip _).append (more_shows more others)

end

mutual

theorem statement_shows (level : Nat) : (statement : Node) →
    whole (statement.statementLayout level) →
    Shows statement.shown.tokens (statement.statementLayout level)
  | .assignment op target value, full => by
    obtain ⟨whole_target, whole_value⟩ :
        whole target.expressionLayout ∧ whole value.expressionLayout := by
      simpa [whole_eq, statementLayout] using full
    have first := expression_shows target whole_target
    have second := expression_shows value whole_value
    rw [shown, tokens, ← List.singleton_append, ← List.append_assoc]
    exact (((first.skip _).append (shows_spaced op)).append second).before _
  | .call id arguments none, full => by
    have line := expression_shows (.call id arguments none)
      (by simpa [whole_eq, statementLayout] using full)
    exact (line.skip _).before _
  | .call id arguments (some block), full => by
    obtain ⟨whole_head, whole_block⟩ : whole (call id arguments none).expressionLayout ∧
        whole (statementsLayout (level + 1) block) := by
      simpa [whole_eq, statementLayout] using full
    have head := expression_shows (.call id arguments none) whole_head
    have body := (statements_shows (level + 1) block whole_block).braced level
    exact ((head.skip _).append (body.skip _)).before _
  | .condition test body alternative, full => by
    obtain ⟨whole_test, whole_body, whole_alternative⟩ : whole test.expressionLayout ∧
        whole (statementsLayout (level + 1) body) ∧
        whole (alternativeLayout level alternative) := by
      simpa [whole_eq, statementLayout] using full
    have first := (expression_shows test whole_test).guarded
    have second := (statements_shows (level + 1) body whole_body).braced level
    have third := alternative_shows level alternative whole_alternative
    exact (((first.skip _).append second).append third).before _
  | .statementList items, full => by
    have body := statements_shows (level + 1) items
      (by simpa [whole_eq, statementLayout] using full)
    exact ((body.braced level).skip _).before _
  | .arrayAccess .., full | .binaryOp .., full | .expressionList _, full | .notOp _, full
  | .identifier _, full | .literal _, full | .scopeAccess .., full => by
    have line := expression_shows _ (by simpa [whole_eq, statementLayout] using full)
    exact (line.skip _).before _

theorem alternative_shows (level : Nat) : (alternative : Alternative) →
    whole (alternativeLayout level alternative) →
    Shows alternative.shown.tokens (alternativeLayout level alternative)
  | .absent, _ => shows_nil
  | .elseIf test body alternative, full => by
    obtain ⟨whole_test, whole_body, whole_alternative⟩ : whole test.expressionLayout ∧
        whole (statementsLayout (level + 1) body) ∧
        whole (alternativeLayout level alternative) := by
      simpa [whole_eq, alternativeLayout] using full
    have first := (expression_shows test whole_test).guarded
    have second := (statements_shows (level + 1) body whole_body).braced level
    have third := alternative_shows level alternative whole_alternative
    exact ((((first.skip _).skip _).skip _).append second).append third
  | .elseBlock body, full => by
    have lines := statements_shows (level + 1) body
      (by simpa [whole_eq, alternativeLayout] using full)
    exact (((lines.braced level).skip _).skip _).skip _

theorem statements_shows (level : Nat) : (body : List Node) →
    whole (statementsLayout level body) →
    Shows (tokensOfAll (shownStatements body)) (statementsLayout level body)
  | [], _ => shows_nil
  | statement :: more, full => by
    obtain ⟨first, others⟩ :
        whole (statement.statementLayout level) ∧ whole (statementsLayout level more) := by
      simpa [whole_eq, statementsLayout] using full
    exact (statement_shows level statement first).append (statements_shows level more others)

end

theorem layout_shows (n : Node) (full : whole n.layout) : Shows n.shown.tokens n.layout := by
  cases n with
  | statementList items => exact statements_shows 0 items full
  | call id arguments block => cases block <;> exact statement_shows 0 (.call id arguments _) full
  | assignment | condition => exact statement_shows 0 _ full
  | _ => exact expression_shows _ full

/-- A call inside an expression with a block, of which the text of a tree shows nothing. -/
def hidesBlock : Position → Node → Bool
  | .expression, .call _ _ (some _) => true
  | _, _ => false

mutual

theorem shownExpression_eq : (e : Node) → e.hidesBlock .expression = false →
    (∀ x ∈ e.parts, x.2.hidesBlock x.1 = false) → e.shownExpression = e
  | .arrayAccess id index, _, below => by
    obtain ⟨here, inside⟩ := List.forall_mem_cons.mp below
    rw [shownExpression, shownExpression_eq index here inside]
  | .binaryOp op left right, _, below => by
    obtain ⟨inLeft, inRight⟩ := List.forall_mem_append.mp below
    obtain ⟨first, insideFirst⟩ := List.forall_mem_cons.mp inLeft
    obtain ⟨second, insideSecond⟩ := List.forall_mem_cons.mp inRight
    rw [shownExpression, shownExpression_eq left first insideFirst,
      shownExpression_eq right second insideSecond]
  | .call id arguments none, _, below => by
    rw [shownExpression, shownExpressions_eq arguments below]
  | .expressionList items, _, below => by
    rw [shownExpression, shownExpressions_eq items below]
  | .notOp operand, _, below => by
    obtain ⟨here, inside⟩ := List.forall_mem_cons.mp below
    rw [shownExpression, shownExpression_eq operand here inside]
  | .call _ _ (some _), here, _ => by cases here
  | .identifier _, _, _ | .literal _, _, _ | .scopeAccess .., _, _ | .assignment .., _, _
  | .condition .., _, _ | .statementList _, _, _ => rfl

theorem shownExpressions_eq : (items : List Node) →
    (∀ x ∈ partsOfAll .expression items, x.2.hidesBlock x.1 = false) →
    shownExpressions items = items
  | [], _ => rfl
  | item :: more, below => by
    obtain ⟨first, others⟩ := List.forall_mem_append.mp below
    obtain ⟨here, inside⟩ := List.forall_mem_cons.mp first
    rw [shownExpressions, shownExpression_eq item here inside, shownExpressions_eq more others]

end

mutual

theorem shown_eq : (statement : Node) → (∀ x ∈ statement.parts, x.2.hidesBlock x.1 = false) →
    statement.shown = statement
  | .assignment op target value, below => by
    obtain ⟨inTarget, inValue⟩ := List.forall_mem_append.mp below
    obtain ⟨first, insideFirst⟩ := List.forall_mem_cons.mp inTarget
    obtain ⟨second, insideSecond⟩ := List.forall_mem_cons.mp inValue
    rw [shown, shownExpression_eq target first insideFirst,
      shownExpression_eq value second insideSecond]
  | .call id arguments none, below => by
    rw [shown, shownExpressions_eq arguments below]
  | .call id arguments (some block), below => by
    obtain ⟨inArguments, inBlock⟩ := List.forall_mem_append.mp below
    rw [shown, shownExpressions_eq arguments inArguments, shownStatements_eq block inBlock]
  | .condition test body alternative, below => by
    obtain ⟨inGuarded, inAlternative⟩ := List.forall_mem_append.mp below
    obtain ⟨inTest, inBody⟩ := List.forall_mem_append.mp inGuarded
    obtain ⟨here, inside⟩ := List.forall_mem_cons.mp inTest
    rw [shown, shownExpression_eq test here inside, shownStatements_eq body inBody,
      alternative_shown_eq alternative inAlternative]
  | .statementList items, below => by
    rw [shown, shownStatements_eq items below]
  | .arrayAccess .., below | .binaryOp .., below | .expressionList _, below | .notOp _, below
  | .identifier _, below | .literal _, below | .scopeAccess .., below =>
    shownExpression_eq _ rfl below

theorem alternative_shown_eq : (alternative : Alternative) →
    (∀ x ∈ alternative.parts, x.2.hidesBlock x.1 = false) → alternative.shown = alternative
  | .absent, _ => rfl
  | .elseIf test body alternative, below => by
    obtain ⟨inGuarded, inAlternative⟩ := List.forall_mem_append.mp below
    obtain ⟨inTest, inBody⟩ := List.forall_mem_append.mp inGuarded
    obtain ⟨here, inside⟩ := List.forall_mem_cons.mp inTest
    rw [Alternative.shown, shownExpression_eq test here inside, shownStatements_eq body inBody,
      alternative_shown_eq alternative inAlternative]
  | .elseBlock body, below => by
    rw [Alternative.shown, shownStatements_eq body below]

theorem shownStatements_eq : (body : List Node) →
    (∀ x ∈ partsOfAll .statement body, x.2.hidesBlock x.1 = false) → shownStatements body = body
  | [], _ => rfl
  | statement :: more, below => by
    obtain ⟨first, others⟩ := List.forall_mem_append.mp below
    obtain ⟨_, inside⟩ := List.forall_mem_cons.mp first
    rw [shownStatements, shown_eq statement inside, shownStatements_eq more others]

end

theorem break?_misplaced {position : Position} {n : Node}
    (ranked : ∀ kind ∈ n.operator?, kind.precedence?.isSome) :
    (n.break? position).all Break.isMisplaced := by
  cases n with
  | binaryOp op left right =>
    have precedence : op.kind.precedence?.isSome := ranked op.kind rfl
    simp [break?, Option.isNone_eq_false_iff.mpr precedence]
  | _ => cases position <;> rfl

/-- Where all operators have a precedence, a layout breaks off only at misplaced statements, each of
which is told about. -/
theorem whole_of_silent {t : Node} {width : Nat}
    (ranked : ∀ x ∈ t.placed, ∀ kind ∈ x.2.operator?, kind.precedence?.isSome)
    (silent : (t.format width).events = []) : whole t.layout := by
  -- Without an operator to blame, the first break of a layout would be a misplaced statement.
  have misplaced : allMeet { admitted := Break.isMisplaced } t.layout := by
    refine layout_meets (fun _ => rfl) t (List.all_eq_true.mpr fun x member => ?_)
    exact break?_misplaced (ranked x member)
  refine List.all_eq_true.mpr fun piece member => ?_
  cases broken : t.layout.findSome? Piece.break? with
  | none => exact Option.isNone_iff_eq_none.mpr (List.findSome?_eq_none_iff.mp broken piece member)
  | some reason =>
    obtain ⟨culprit, found, blamed⟩ := List.exists_of_findSome?_eq_some broken
    have admitted := List.all_eq_true.mp misplaced culprit found
    have first : (t.format width).brokenOff = some reason := broken
    cases culprit with
    | stop reason' =>
      cases blamed
      cases reason with
      | misplaced nodeName => simp [Rendering.events, first] at silent
      | unranked kind => cases admitted
    | _ => cases blamed

end Node

/-- The words stand in the text one behind the other, with anything between them. -/
def HoldsInOrder : List (List Char) → List Char → Prop
  | [], _ => True
  | word :: more, text => ∃ before after, text = before ++ (word ++ after) ∧ HoldsInOrder more after

theorem HoldsInOrder.behind {words : List (List Char)} {text : List Char}
    (holds : HoldsInOrder words text) (before : List Char) :
    HoldsInOrder words (before ++ text) := by
  cases words with
  | nil => trivial
  | cons word more =>
    obtain ⟨ahead, after, rfl, others⟩ := holds
    exact ⟨before ++ ahead, after, (List.append_assoc ..).symm, others⟩

theorem HoldsInOrder.holds_each {words : List (List Char)} {text word : List Char}
    (holds : HoldsInOrder words text) (member : word ∈ words) : word <:+: text := by
  induction words generalizing text with
  | nil => cases member
  | cons first more ih =>
    obtain ⟨before, after, rfl, others⟩ := holds
    rcases List.mem_cons.mp member with rfl | later
    · exact ⟨before, after, List.append_assoc ..⟩
    · obtain ⟨ahead, behind, split⟩ := ih others later
      exact ⟨before ++ (first ++ ahead), behind, by simp [← split]⟩

theorem Piece.Shows.holds {ts : List Token} {ps : List Piece} (found : Shows ts ps) (width : Nat) :
    HoldsInOrder (ts.map fun t => t.value.toList) (ps.flatMap (Piece.text width)) := by
  induction ps generalizing ts with
  | nil =>
    cases ts with
    | nil => trivial
    | cons t ts => cases found
  | cons p ps ih =>
    cases ts with
    | nil => trivial
    | cons t ts =>
      cases found with
      | cons _ later => exact (ih later).behind _
      | cons_cons _ later => exact ⟨[], _, rfl, ih later⟩

/-- A text that was written without a warning holds, in the order of the tree, the texts of all
tokens of the tree but those in the blocks of calls inside expressions. It is the text of the tree
without these blocks, which is the tree itself where no call inside an expression has one. -/
theorem silent_text_holds_shown (t : Node) (width : Nat)
    (ranked : ∀ x ∈ t.placed, ∀ kind ∈ x.2.operator?, kind.precedence?.isSome)
    (silent : (t.format width).events = []) :
    HoldsInOrder (t.shown.tokens.map fun x => x.value.toList) (t.format width).text.toList ∧
      t.shown.format width = t.format width ∧
      ((∀ x ∈ t.parts, x.2.hidesBlock x.1 = false) → t.shown = t) := by
  have whole := Node.whole_of_silent ranked silent
  refine ⟨?_, ?_, Node.shown_eq t⟩
  · rw [Node.format, Rendering.ofLayout, Piece.visible_of_whole whole, String.toList_ofList]
    exact (Node.layout_shows t whole).holds width
  · rw [Node.format, Node.layout_shown, Node.format]

/-- `if (!(a = f(1) { b })) { { g() { c.d } } } else { }`, where the operator of an assignment joins
two operands, a call among them hides its block, and a list of statements is itself a statement. -/
theorem silent_text_holds_shown_condition :
    let token kind value : Token := ⟨kind, value, .unknown⟩
    let t := Node.condition
      (.notOp (.binaryOp (token .equal "=") (.identifier (token .identifier "a"))
        (.call (token .identifier "f") [.literal (token .integer "1")]
          (some [.identifier (token .identifier "b")]))))
      [.statementList [.call (token .identifier "g") []
        (some [.scopeAccess (token .identifier "c") (token .identifier "d")])]]
      (.elseBlock [])
    HoldsInOrder [['a'], ['='], ['f'], ['1'], ['g'], ['c'], ['d']] (t.format 4).text.toList := by
  intro token t
  have words : t.shown.tokens.map (fun x => x.value.toList) =
      [['a'], ['='], ['f'], ['1'], ['g'], ['c'], ['d']] := by decide +kernel
  rw [← words]
  exact (silent_text_holds_shown t 4 (by decide) (by decide +kernel)).1

/-- `a = f() { b = 1 }` as a hand-built tree: the block is lost without a warning. -/
theorem hidden_block_lost_silently :
    let token kind value : Token := ⟨kind, value, .unknown⟩
    let t := Node.assignment (token .equal "=") (.identifier (token .identifier "a"))
      (.call (token .identifier "f") [] (some [.assignment (token .equal "=")
        (.identifier (token .identifier "b")) (.literal (token .integer "1"))]))
    (∀ x ∈ t.placed, ∀ kind ∈ x.2.operator?, kind.precedence?.isSome) ∧
      (t.format 2).events = [] ∧
      ¬ HoldsInOrder (t.tokens.map fun x => x.value.toList) (t.format 2).text.toList := by
  intro token t
  refine ⟨by decide, by decide +kernel, fun holds => ?_⟩
  have lost : ¬ ['b'] <:+: (t.format 2).text.toList := by decide +kernel
  exact lost (holds.holds_each (by decide))

end ShiFormat
