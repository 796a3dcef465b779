import ShiFormat.Parser.Expression

/-!
The grammar of build files: which tokens make a phrase, the tree they stand for, and how deep the
phrase nests. Each block and each expression opens one level around what it holds. The depth of a
phrase is the largest number of levels open at any point of it.
-/
namespace ShiFormat.Grammar

def startsWith (kind : TokenKind) (ts : List Token) : Bool :=
  ts.head?.any fun t => t.kind == kind

/-- The bound that an operator and its right operand put on the precedence of the next operator:
a negated operand puts none. -/
def ceilingAfter (precedence : Nat) (operand : List Token) : Option Nat :=
  if startsWith .bang operand then none else some precedence

theorem eq_of_mem_ceilingAfter {precedence c : Nat} {operand : List Token}
    (member : c ∈ ceilingAfter precedence operand) : c = precedence := by
  unfold ceilingAfter at member
  split at member
  · cases member
  · exact (Option.some.inj member).symm

mutual

/-- An operand: all of an expression that holds no operator outside brackets. -/
inductive Primary : Nat → List Token → Node → Prop where
  | literal {value : Token} (kind : value.kind ∈ TokenKind.literals) :
    Primary 0 [value] (.literal value)
  | identifier {id : Token} (kind : id.kind = .identifier) : Primary 0 [id] (.identifier id)
  | arrayAccess {id opening closing : Token} {d : Nat} {ts : List Token} {index : Node}
    (kind : id.kind = .identifier) (opens : opening.kind = .leftBracket)
    (inside : Expression 0 d ts index) (closes : closing.kind = .rightBracket) :
    Primary d (id :: opening :: (ts ++ [closing])) (.arrayAccess id index)
  | scopeAccess {id dot inner : Token} (kind : id.kind = .identifier) (dotted : dot.kind = .dot)
    (member : inner.kind = .identifier) : Primary 0 [id, dot, inner] (.scopeAccess id inner)
  | call {id : Token} {d : Nat} {ts : List Token} {arguments : List Node}
    (head : CallHead d ts id arguments) : Primary d ts (.call id arguments none)
  | parenthesized {opening closing : Token} {d : Nat} {ts : List Token} {inner : Node}
    (opens : opening.kind = .leftParen) (inside : Expression 0 d ts inner)
    (closes : closing.kind = .rightParen) : Primary d (opening :: (ts ++ [closing])) inner
  | bracketed {opening closing : Token} {d : Nat} {ts : List Token} {items : List Node}
    (opens : opening.kind = .leftBracket) (inside : Items d ts items)
    (closes : closing.kind = .rightBracket) :
    Primary d (opening :: (ts ++ [closing])) (.expressionList items)

/-- `id ( items )` -/
inductive CallHead : Nat → List Token → Token → List Node → Prop where
  | applied {id opening closing : Token} {d : Nat} {ts : List Token} {items : List Node}
    (kind : id.kind = .identifier) (opens : opening.kind = .leftParen) (inside : Items d ts items)
    (closes : closing.kind = .rightParen) :
    CallHead d (id :: opening :: (ts ++ [closing])) id items

/-- Expressions with commas between them. One more comma may follow the last of them. -/
inductive Items : Nat → List Token → List Node → Prop where
  | nil : Items 0 [] []
  | last {d : Nat} {ts : List Token} {item : Node} (first : Expression 0 d ts item) :
    Items d ts [item]
  | cons {comma : Token} {d e : Nat} {ts us : List Token} {item : Node} {more : List Node}
    (first : Expression 0 d ts item) (separated : comma.kind = .comma) (others : Items e us more) :
    Items (max d e) (ts ++ comma :: us) (item :: more)

/-- Operands and the operators between them, folded to the left. Each operator binds tighter than
the minimum, and no tighter than the ceiling left by the part before it. -/
inductive Chain : Nat → Option Nat → Nat → List Token → Node → Prop where
  | primary {m d : Nat} {ts : List Token} {node : Node} (operand : Primary d ts node) :
    Chain m none d ts node
  | operator {m d e p : Nat} {ceiling : Option Nat} {op : Token} {ts us : List Token}
    {left right : Node} (before : Chain m ceiling d ts left)
    (precedence : op.kind.binaryPrecedence? = some p) (tighter : m < p)
    (below : ∀ c ∈ ceiling, p ≤ c) (operand : Expression p e us right) :
    Chain m (ceilingAfter p us) (max d e) (ts ++ op :: us) (.binaryOp op left right)

/-- An expression whose operators bind tighter than a minimum. -/
inductive Expression : Nat → Nat → List Token → Node → Prop where
  | negation {bang : Token} {m d : Nat} {ts : List Token} {operand : Node}
    (kind : bang.kind = .bang) (inside : Expression Parse.notPrecedence d ts operand) :
    Expression m (d + 1) (bang :: ts) (.notOp operand)
  | chain {m d : Nat} {ceiling : Option Nat} {ts : List Token} {node : Node}
    (operands : Chain m ceiling d ts node) : Expression m (d + 1) ts node

end

mutual

/-- `{ statements }` -/
inductive Block : Nat → List Token → List Node → Prop where
  | braced {opening closing : Token} {d : Nat} {ts : List Token} {body : List Node}
    (opens : opening.kind = .leftBrace) (inside : Statements d ts body)
    (closes : closing.kind = .rightBrace) : Block (d + 1) (opening :: (ts ++ [closing])) body

inductive Statements : Nat → List Token → List Node → Prop where
  | nil : Statements 0 [] []
  | cons {d e : Nat} {ts us : List Token} {statement : Node} {more : List Node}
    (first : Statement d ts statement) (others : Statements e us more) :
    Statements (max d e) (ts ++ us) (statement :: more)

inductive Statement : Nat → List Token → Node → Prop where
  | assignment {id op : Token} {d : Nat} {ts : List Token} {value : Node}
    (kind : id.kind = .identifier) (assigns : op.kind ∈ TokenKind.assignmentOperators)
    (right : Expression 0 d ts value) :
    Statement d (id :: op :: ts) (.assignment op (.identifier id) value)
  | call {id : Token} {d : Nat} {ts : List Token} {arguments : List Node}
    (head : CallHead d ts id arguments) : Statement d ts (.call id arguments none)
  | callBlock {id : Token} {d e : Nat} {ts us : List Token} {arguments body : List Node}
    (head : CallHead d ts id arguments) (block : Block e us body) :
    Statement (max d e) (ts ++ us) (.call id arguments (some body))
  | condition {d e : Nat} {ts us : List Token} {test : Node} {body : List Node}
    {alternative : Alternative} (guarded : Guarded d ts test body)
    (otherwise : Otherwise e us alternative) :
    Statement (max d e) (ts ++ us) (.condition test body alternative)

/-- `if ( test ) block` -/
inductive Guarded : Nat → List Token → Node → List Node → Prop where
  | guarded {word opening closing : Token} {d e : Nat} {ts us : List Token} {test : Node}
    {body : List Node} (kind : word.kind = .ifWord) (opens : opening.kind = .leftParen)
    (inside : Expression 0 d ts test) (closes : closing.kind = .rightParen)
    (block : Block e us body) :
    Guarded (max d e) (word :: opening :: (ts ++ closing :: us)) test body

/-- Nothing, `else` and a condition, or `else` and a block. -/
inductive Otherwise : Nat → List Token → Alternative → Prop where
  | absent : Otherwise 0 [] .absent
  | elseIf {word : Token} {d e : Nat} {ts us : List Token} {test : Node} {body : List Node}
    {alternative : Alternative} (kind : word.kind = .elseWord) (guarded : Guarded d ts test body)
    (otherwise : Otherwise e us alternative) :
    Otherwise (max d e) (word :: (ts ++ us)) (.elseIf test body alternative)
  | elseBlock {word : Token} {d : Nat} {ts : List Token} {body : List Node}
    (kind : word.kind = .elseWord) (block : Block d ts body) :
    Otherwise d (word :: ts) (.elseBlock body)

end

/-- A whole file and its tree, with at most `levels` levels open anywhere. -/
def File (levels : Nat) (ts : List Token) (tree : Node) : Prop :=
  ∃ depth ≤ levels, ∃ body, Statements depth ts body ∧ tree = .statementList body

end ShiFormat.Grammar
