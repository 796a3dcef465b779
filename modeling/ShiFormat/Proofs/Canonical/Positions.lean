import ShiFormat.Proofs.Canonical.WellFormed

/-!
Where the nodes of a tree stand, and which nodes belong there. A tree is well-formed if each of its
nodes belongs where it stands and each of its tokens has a text that is read as that token.
-/
namespace ShiFormat

inductive Position where
  | statement
  | expression
  deriving DecidableEq, Repr

mutual

/-- The nodes below a node with their positions, each before the nodes below it. -/
def Node.parts : Node → List (Position × Node)
  | .arrayAccess _ index => (.expression, index) :: index.parts
  | .assignment _ target value =>
    (.expression, target) :: target.parts ++ (.expression, value) :: value.parts
  | .binaryOp _ left right =>
    (.expression, left) :: left.parts ++ (.expression, right) :: right.parts
  | .call _ arguments none => partsOfAll .expression arguments
  | .call _ arguments (some block) =>
    partsOfAll .expression arguments ++ partsOfAll .statement block
  | .condition test body alternative =>
    (.expression, test) :: test.parts ++ partsOfAll .statement body ++ alternative.parts
  | .expressionList items => partsOfAll .expression items
  | .notOp operand => (.expression, operand) :: operand.parts
  | .statementList items => partsOfAll .statement items
  | .identifier _ | .literal _ | .scopeAccess .. => []

def Alternative.parts : Alternative → List (Position × Node)
  | .absent => []
  | .elseIf test body alternative =>
    (.expression, test) :: test.parts ++ partsOfAll .statement body ++ alternative.parts
  | .elseBlock body => partsOfAll .statement body

def partsOfAll (position : Position) : List Node → List (Position × Node)
  | [] => []
  | node :: more => (position, node) :: node.parts ++ partsOfAll position more

end

namespace Node

/-- The nodes of a tree with their positions, of which the root's is that of a statement. -/
def placed (n : Node) : List (Position × Node) := (.statement, n) :: n.parts

/-- Whether a node belongs into a position, by itself and by the kinds of its tokens. -/
def fits : Position → Node → Bool
  | .statement, .assignment op (.identifier id) _ =>
    id.kind = .identifier && op.kind ∈ TokenKind.assignmentOperators
  | .statement, .call id _ _ => id.kind = .identifier
  | .statement, .condition .. => true
  | .expression, .arrayAccess id _ => id.kind = .identifier
  | .expression, .binaryOp op _ _ => op.kind.binaryPrecedence?.isSome
  | .expression, .call id _ none => id.kind = .identifier
  | .expression, .expressionList _ => true
  | .expression, .identifier id => id.kind = .identifier
  | .expression, .literal value => value.kind ∈ TokenKind.literals
  | .expression, .notOp _ => true
  | .expression, .scopeAccess id inner => id.kind = .identifier && inner.kind = .identifier
  | _, _ => false

end Node

/-- Every node belongs where it stands. -/
def allFit (nodes : List (Position × Node)) : Bool := nodes.all fun x => x.2.fits x.1

@[simp] theorem allFit_nil : allFit [] := rfl

@[simp] theorem allFit_cons (position : Position) (n : Node) (nodes : List (Position × Node)) :
    allFit ((position, n) :: nodes) = (n.fits position && allFit nodes) := rfl

@[simp] theorem allFit_append (ns ms : List (Position × Node)) :
    allFit (ns ++ ms) = (allFit ns && allFit ms) := List.all_append

namespace Node

mutual

theorem formsExpression_eq : (e : Node) →
    e.formsExpression = ((e.fits .expression && allFit e.parts) && e.tokens.all Token.legible)
  | .arrayAccess id index => by
    simp only [formsExpression, Token.spellsName, Token.spells, List.mem_singleton, fits, parts,
      tokens, formsExpression_eq index, allFit_cons, List.all_cons]
    ac_rfl
  | .binaryOp op left right => by
    simp only [formsExpression, Token.spellsOperator, fits, parts, tokens, formsExpression_eq left,
      formsExpression_eq right, List.cons_append, allFit_cons, allFit_append, List.all_cons,
      List.all_append]
    ac_rfl
  | .call id arguments none => by
    simp only [formsExpression, Token.spellsName, Token.spells, List.mem_singleton, fits, parts,
      tokens, allExpressions_eq arguments, List.all_cons]
    ac_rfl
  | .expressionList items => by
    simp only [formsExpression, fits, parts, tokens, allExpressions_eq items, Bool.true_and]
  | .notOp operand => by
    simp only [formsExpression, fits, parts, tokens, formsExpression_eq operand, allFit_cons,
      Bool.true_and]
  | .identifier id => by simp [formsExpression, Token.spellsName, Token.spells, fits, parts, tokens]
  | .literal value => by simp [formsExpression, Token.spells, fits, parts, tokens]
  | .scopeAccess id inner => by
    simp only [formsExpression, Token.spellsName, Token.spells, List.mem_singleton, fits, parts,
      tokens, allFit_nil, List.all_cons, List.all_nil, Bool.and_true]
    ac_rfl
  | .call _ _ (some _) | .assignment .. | .condition .. | .statementList _ => rfl

theorem allExpressions_eq : (items : List Node) →
    allExpressions items =
      (allFit (partsOfAll .expression items) && (tokensOfAll items).all Token.legible)
  | [] => rfl
  | item :: more => by
    simp only [allExpressions, partsOfAll, tokensOfAll, formsExpression_eq item,
      allExpressions_eq more, List.cons_append, allFit_cons, allFit_append, List.all_append]
    ac_rfl

end

mutual

theorem formsStatement_eq : (n : Node) →
    n.formsStatement = ((n.fits .statement && allFit n.parts) && n.tokens.all Token.legible)
  | .assignment op target value => by
    cases target with
    | identifier id =>
      simp only [formsStatement, formsTarget, Token.spellsName, Token.spells, List.mem_singleton,
        fits, parts, tokens, formsExpression_eq value, List.cons_append, List.nil_append,
        allFit_cons, List.all_cons]
      ac_rfl
    | _ => rfl
  | .call id arguments none => by
    simp only [formsStatement, Token.spellsName, Token.spells, List.mem_singleton, fits, parts,
      tokens, allExpressions_eq arguments, List.all_cons]
    ac_rfl
  | .call id arguments (some block) => by
    simp only [formsStatement, Token.spellsName, Token.spells, List.mem_singleton, fits, parts,
      tokens, allExpressions_eq arguments, allStatements_eq block, allFit_append, List.all_cons,
      List.all_append]
    ac_rfl
  | .condition test body alternative => by
    simp only [formsStatement, fits, parts, tokens, formsExpression_eq test, allStatements_eq body,
      isFormed_eq alternative, List.cons_append, allFit_cons, allFit_append, List.all_append,
      Bool.true_and]
    ac_rfl
  | .arrayAccess .. | .binaryOp .. | .expressionList .. | .identifier _ | .literal _ => rfl
  | .notOp _ | .scopeAccess .. | .statementList _ => rfl

theorem isFormed_eq : (alternative : Alternative) →
    alternative.isFormed = (allFit alternative.parts && alternative.tokens.all Token.legible)
  | .absent => rfl
  | .elseIf test body alternative => by
    simp only [Alternative.isFormed, Alternative.parts, Alternative.tokens, formsExpression_eq test,
      allStatements_eq body, isFormed_eq alternative, List.cons_append, allFit_cons, allFit_append,
      List.all_append]
    ac_rfl
  | .elseBlock body => allStatements_eq body

theorem allStatements_eq : (body : List Node) →
    allStatements body =
      (allFit (partsOfAll .statement body) && (tokensOfAll body).all Token.legible)
  | [] => rfl
  | statement :: more => by
    simp only [allStatements, partsOfAll, tokensOfAll, formsStatement_eq statement,
      allStatements_eq more, List.cons_append, allFit_cons, allFit_append, List.all_append]
    ac_rfl

end

end Node
end ShiFormat
