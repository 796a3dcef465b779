import ShiFormat.Proofs.Parsing.Acceptance

/-!
Which tokens a tree stores: the tree of an accepted token list holds every name, literal and
operator of the list once and in order, and nothing else. Negations, punctuation and words of
conditions are left to its shape.
-/
namespace ShiFormat

/-- The kinds of token that trees store. -/
def TokenKind.isStored (kind : TokenKind) : Bool :=
  kind == .identifier || kind ∈ literals || kind ∈ assignmentOperators ||
    kind.binaryPrecedence?.isSome

def Token.isStored (t : Token) : Bool := t.kind.isStored

/-- The tokens of a list that a tree stores. -/
def storedTokens (ts : List Token) : List Token := ts.filter Token.isStored

theorem storedTokens_nil : storedTokens [] = [] := rfl

theorem storedTokens_append (ts us : List Token) :
    storedTokens (ts ++ us) = storedTokens ts ++ storedTokens us := List.filter_append ts us

theorem storedTokens_cons {t : Token} (stored : t.isStored = true) (ts : List Token) :
    storedTokens (t :: ts) = t :: storedTokens ts := List.filter_cons_of_pos stored

theorem storedTokens_skip {t : Token} {kind : TokenKind} (same : t.kind = kind)
    (dropped : kind.isStored = false) (ts : List Token) :
    storedTokens (t :: ts) = storedTokens ts := by
  apply List.filter_cons_of_neg
  rw [Token.isStored, same, dropped]
  exact Bool.false_ne_true

theorem isStored_name {id : Token} (kind : id.kind = .identifier) : id.isStored = true := by
  rw [Token.isStored, kind]
  rfl

theorem isStored_literal {value : Token} (kind : value.kind ∈ TokenKind.literals) :
    value.isStored = true := by
  simp [Token.isStored, TokenKind.isStored, kind]

theorem isStored_assignment {op : Token} (kind : op.kind ∈ TokenKind.assignmentOperators) :
    op.isStored = true := by
  simp [Token.isStored, TokenKind.isStored, kind]

theorem isStored_operator {op : Token} {p : Nat} (precedence : op.kind.binaryPrecedence? = some p) :
    op.isStored = true := by
  simp [Token.isStored, TokenKind.isStored, precedence]

/-- Brackets and braces are not stored. -/
theorem storedTokens_enclosed {opening closing : Token} {first last : TokenKind}
    (opens : opening.kind = first) (closes : closing.kind = last)
    (dropped : first.isStored = false ∧ last.isStored = false) (ts : List Token) :
    storedTokens (opening :: (ts ++ [closing])) = storedTokens ts := by
  rw [storedTokens_skip opens dropped.1, storedTokens_append, storedTokens_skip closes dropped.2,
    storedTokens_nil, List.append_nil]

/-- Comments and ends of input are not stored, so the parser passes over nothing that is. -/
theorem storedTokens_kept (tokens : List Token) :
    storedTokens (tokens.filter Parser.isKept) = storedTokens tokens := by
  rw [storedTokens, storedTokens, List.filter_filter]
  apply List.filter_congr
  intro t _
  cases kind : t.kind <;> simp [Token.isStored, Parser.isKept, kind] <;> rfl

namespace Grammar

mutual

theorem Primary.stored {d : Nat} {ts : List Token} {node : Node} : Primary d ts node →
    node.tokens = storedTokens ts
  | .literal kind => (storedTokens_cons (isStored_literal kind) []).symm
  | .identifier kind => (storedTokens_cons (isStored_name kind) []).symm
  | .arrayAccess kind opens inside closes => by
    rw [storedTokens_cons (isStored_name kind), storedTokens_enclosed opens closes ⟨rfl, rfl⟩,
      Node.tokens, inside.stored]
  | .scopeAccess kind dotted member => by
    rw [storedTokens_cons (isStored_name kind), storedTokens_skip dotted rfl,
      storedTokens_cons (isStored_name member), storedTokens_nil, Node.tokens]
  | .call head => by
    rw [Node.tokens, head.stored]
  | .parenthesized opens inside closes => by
    rw [storedTokens_enclosed opens closes ⟨rfl, rfl⟩, inside.stored]
  | .bracketed opens inside closes => by
    rw [storedTokens_enclosed opens closes ⟨rfl, rfl⟩, Node.tokens, inside.stored]

theorem CallHead.stored {d : Nat} {ts : List Token} {id : Token} {arguments : List Node} :
    CallHead d ts id arguments → id :: tokensOfAll arguments = storedTokens ts
  | .applied kind opens inside closes => by
    rw [storedTokens_cons (isStored_name kind), storedTokens_enclosed opens closes ⟨rfl, rfl⟩,
      inside.stored]

theorem Items.stored {d : Nat} {ts : List Token} {items : List Node} : Items d ts items →
    tokensOfAll items = storedTokens ts
  | .nil => rfl
  | .last first => by
    rw [tokensOfAll, tokensOfAll, List.append_nil, first.stored]
  | .cons first separated others => by
    rw [storedTokens_append, storedTokens_skip separated rfl, tokensOfAll, first.stored,
      others.stored]

theorem Chain.stored {m d : Nat} {ceiling : Option Nat} {ts : List Token} {node : Node} :
    Chain m ceiling d ts node → node.tokens = storedTokens ts
  | .primary operand => operand.stored
  | .operator before precedence _ _ operand => by
    rw [storedTokens_append, storedTokens_cons (isStored_operator precedence), Node.tokens,
      before.stored, operand.stored]

theorem Expression.stored {m d : Nat} {ts : List Token} {node : Node} : Expression m d ts node →
    node.tokens = storedTokens ts
  | .negation kind inside => by
    rw [storedTokens_skip kind rfl, Node.tokens, inside.stored]
  | .chain operands => operands.stored

end

mutual

theorem Block.stored {d : Nat} {ts : List Token} {body : List Node} : Block d ts body →
    tokensOfAll body = storedTokens ts
  | .braced opens inside closes => by
    rw [storedTokens_enclosed opens closes ⟨rfl, rfl⟩, inside.stored]

theorem Statements.stored {d : Nat} {ts : List Token} {body : List Node} :
    Statements d ts body → tokensOfAll body = storedTokens ts
  | .nil => rfl
  | .cons first others => by
    rw [storedTokens_append, tokensOfAll, first.stored, others.stored]

theorem Statement.stored {d : Nat} {ts : List Token} {statement : Node} :
    Statement d ts statement → statement.tokens = storedTokens ts
  | .assignment kind assigns right => by
    rw [storedTokens_cons (isStored_name kind), storedTokens_cons (isStored_assignment assigns),
      Node.tokens, Node.tokens, right.stored, List.singleton_append]
  | .call head => by
    rw [Node.tokens, head.stored]
  | .callBlock head block => by
    rw [storedTokens_append, ← head.stored, ← block.stored, Node.tokens, List.cons_append]
  | .condition guarded otherwise => by
    rw [storedTokens_append, Node.tokens, guarded.stored, otherwise.stored]

theorem Guarded.stored {d : Nat} {ts : List Token} {test : Node} {body : List Node} :
    Guarded d ts test body → test.tokens ++ tokensOfAll body = storedTokens ts
  | .guarded kind opens inside closes block => by
    rw [storedTokens_skip kind rfl, storedTokens_skip opens rfl, storedTokens_append,
      storedTokens_skip closes rfl, inside.stored, block.stored]

theorem Otherwise.stored {d : Nat} {ts : List Token} {alternative : Alternative} :
    Otherwise d ts alternative → alternative.tokens = storedTokens ts
  | .absent => rfl
  | .elseIf kind guarded otherwise => by
    rw [storedTokens_skip kind rfl, storedTokens_append, Alternative.tokens, guarded.stored,
      otherwise.stored]
  | .elseBlock kind block => by
    rw [storedTokens_skip kind rfl, Alternative.tokens, block.stored]

end

end Grammar

/-- The tree of an accepted token list holds, in source order, exactly the names, literals,
assignment operators and binary operators of the list, with their places. -/
theorem tree_holds_stored_tokens (tokens : List Token) (tree : Node)
    (accepted : parseTokens tokens = .ok tree) : tree.tokens = tokens.filter Token.isStored := by
  obtain ⟨d, _, body, derived, rfl⟩ := derived_of_parseTokens accepted
  rw [Node.tokens, derived.stored]
  exact storedTokens_kept tokens

/-- `if (a == ![1, f(x),]) { y += b[c.d] # note }` and `else { g() { } }` -/
theorem tree_holds_stored_tokens_condition :
    let token kind value column : Token := ⟨kind, value, ⟨some ⟨"BUILD.shi"⟩, 1, column⟩⟩
    let tokens := [token .ifWord "if" 1, token .leftParen "(" 4, token .identifier "a" 5,
      token .equalEqual "==" 7, token .bang "!" 10, token .leftBracket "[" 11,
      token .integer "1" 12, token .comma "," 13, token .identifier "f" 15,
      token .leftParen "(" 16, token .identifier "x" 17, token .rightParen ")" 18,
      token .comma "," 19, token .rightBracket "]" 20, token .rightParen ")" 21,
      token .leftBrace "\x7b" 23, token .identifier "y" 25, token .plusEquals "+=" 27,
      token .identifier "b" 30, token .leftBracket "[" 31, token .identifier "c" 32,
      token .dot "." 33, token .identifier "d" 34, token .rightBracket "]" 35,
      token .comment "# note" 37, token .rightBrace "\x7d" 44, token .elseWord "else" 46,
      token .leftBrace "\x7b" 51, token .identifier "g" 53, token .leftParen "(" 54,
      token .rightParen ")" 55, token .leftBrace "\x7b" 57, token .rightBrace "\x7d" 59,
      token .rightBrace "\x7d" 61, token .endOfInput "" 62]
    ∃ tree, parseTokens tokens = .ok tree ∧ tree.tokens = tokens.filter Token.isStored := by
  intro token tokens
  exact ⟨_, rfl, tree_holds_stored_tokens tokens _ rfl⟩

end ShiFormat
