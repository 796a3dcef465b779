import ShiFormat.Comparison
import ShiFormat.Proofs.Parsing.Acceptance

/-!
The parser does not look at places. Where its tokens and the end of the input are moved, it yields
the tree of the moved tokens, or the same error at the moved place.
-/
namespace ShiFormat

/-- The token moved to a place that depends on its own alone. -/
def Token.moved (move : Location → Location) (t : Token) : Token :=
  { t with location := move t.location }

abbrev Node.moved (move : Location → Location) (e : Node) : Node := e.mapTokens (Token.moved move)

def SourceError.moved (move : Location → Location) : SourceError → SourceError
  | .unexpectedSymbol symbol location expected =>
    .unexpectedSymbol symbol (move location) expected
  | .unexpectedToken token expected => .unexpectedToken (token.moved move) expected
  | .unexpectedEnd location expected => .unexpectedEnd (move location) expected
  | .nestingTooDeep limit location => .nestingTooDeep limit (move location)
  | .semantic message location => .semantic message (move location)

def Failure.moved (move : Location → Location) (failure : Failure) : Failure :=
  ⟨failure.cause.moved move, failure.openLevels⟩

/-- The reply about moved tokens, with `f` of the value. -/
def Reply.moved {α β : Type} (move : Location → Location) (f : α → β) : Reply α → Reply β
  | .ok value rest => .ok (f value) (rest.map (Token.moved move))
  | .failed failure rest => .failed (failure.moved move) (rest.map (Token.moved move))

namespace Parse

/-- On moved tokens the second step does what the first one does on the tokens where they stood,
and yields `f` of its value. -/
def Moves {α β : Type} (move : Location → Location) (f : α → β) (before : Parse α)
    (after : Parse β) : Prop :=
  ∀ finish ts, after (move finish) (ts.map (Token.moved move)) = (before finish ts).moved move f

namespace Moves

variable {α β γ δ : Type} {move : Location → Location} {f : α → β} {g : γ → δ}

theorem pure (value : α) : Moves move f (pure value) (pure (f value)) := fun _ _ => rfl

theorem bind {before : Parse α} {after : Parse β} {next : α → Parse γ} {next' : β → Parse δ}
    (first : Moves move f before after)
    (later : ∀ value, Moves move g (next value) (next' (f value))) :
    Moves move g (before >>= next) (after >>= next') := by
  intro finish ts
  rw [bind_run, bind_run, first]
  cases before finish ts with
  | ok value rest => exact later value finish rest
  | failed failure rest => rfl

theorem fail (cause : SourceError) :
    Moves move f (Parse.fail cause) (Parse.fail (cause.moved move)) := fun _ _ => rfl

theorem unread : Moves move (List.map (Token.moved move)) unread unread := fun _ _ => rfl

theorem here : Moves move move here here := by
  intro finish ts
  cases ts <;> rfl

theorem kindAt (ahead : Nat) : Moves move id (kindAt ahead) (kindAt ahead) := by
  intro finish ts
  have same : (ts.map (Token.moved move))[ahead]?.map Token.kind = ts[ahead]?.map Token.kind := by
    rw [List.getElem?_map, Option.map_map]
    rfl
  simp only [Parse.kindAt, Reply.moved, same, id]

theorem nextIs (kind : TokenKind) : Moves move id (nextIs kind) (nextIs kind) := by
  intro finish ts
  cases ts <;> rfl

theorem expectAt (ahead : Nat) (kinds : List TokenKind) :
    Moves move (Token.moved move) (expectAt ahead kinds) (expectAt ahead kinds) := by
  intro finish ts
  simp only [Parse.expectAt, List.getElem?_map]
  cases ts[ahead]? with
  | none => rfl
  | some token =>
    by_cases expected : token.kind ∈ kinds <;>
      simp [expected, Token.moved, Reply.moved, Failure.moved, SourceError.moved]

theorem consume (kinds : List TokenKind) :
    Moves move (Token.moved move) (consume kinds) (consume kinds) := by
  intro finish ts
  cases ts with
  | nil => rfl
  | cons token rest =>
    by_cases expected : token.kind ∈ kinds <;>
      simp [Parse.consume, expected, Token.moved, Reply.moved, Failure.moved, SourceError.moved]

theorem deepen {before : Parse α} {after : Parse β} (step : Moves move f before after) :
    Moves move f (deepen before) (deepen after) := by
  intro finish ts
  rw [Parse.deepen, Parse.deepen, step]
  cases before finish ts <;> rfl

theorem tooDeep : Moves move f tooDeep tooDeep := .bind .here fun _ => .fail _

end Moves

/-- The rule reads moved tokens as it reads them where they stood. -/
def MovesRule (move : Location → Location) (expr : ExpressionRule) : Prop :=
  ∀ minimum, Moves move (Option.map (Node.moved move)) (expr minimum) (expr minimum)

section
variable {move : Location → Location} {expr : ExpressionRule}

theorem MovesRule.required (rule : MovesRule move expr) (minimum : Nat) (missing : Missing) :
    Moves move (Node.moved move) (required expr minimum missing)
      (required expr minimum missing) := by
  refine .bind .here fun location => .bind (rule minimum) fun found => ?_
  cases found with
  | some node => exact .pure node
  | none => exact .fail _

theorem MovesRule.moreItems (rule : MovesRule move expr) (budget : List Token) :
    Moves move (mapTokensOfAll (Token.moved move)) (moreItems expr budget)
      (moreItems expr (budget.map (Token.moved move))) := by
  induction budget with
  | nil => exact .pure []
  | cons b budget ih =>
    refine .bind (.nextIs .comma) fun separated => ?_
    cases separated with
    | false => exact .pure []
    | true =>
      refine .bind (.consume _) fun _ => .bind (rule 0) fun found => ?_
      cases found with
      | none => exact .pure []
      | some item => exact .bind ih fun more => .pure (item :: more)

theorem MovesRule.itemsUntil (rule : MovesRule move expr) (close : TokenKind) :
    Moves move (mapTokensOfAll (Token.moved move)) (itemsUntil expr close)
      (itemsUntil expr close) := by
  refine .bind (.nextIs close) fun closed => ?_
  cases closed with
  | true => exact .pure []
  | false =>
    refine .bind (rule.required 0 _) fun first => ?_
    exact .bind .unread fun ts => .bind (rule.moreItems ts) fun more => .pure (first :: more)

theorem MovesRule.callHead (rule : MovesRule move expr) :
    Moves move (Prod.map (Token.moved move) (mapTokensOfAll (Token.moved move))) (callHead expr)
      (callHead expr) := by
  refine .bind (.consume _) fun id => .bind (.consume _) fun _ => ?_
  exact .bind (rule.itemsUntil _) fun arguments => .bind (.consume _) fun _ =>
    .pure (id, arguments)

theorem MovesRule.access (rule : MovesRule move expr) :
    Moves move (Node.moved move) (access expr) (access expr) := by
  refine .bind (.consume _) fun id => .bind (.nextIs _) fun indexed => ?_
  cases indexed with
  | true =>
    refine .bind (.consume _) fun _ => .bind (rule.required 0 _) fun index => ?_
    exact .bind (.consume _) fun _ => .pure (Node.arrayAccess id index)
  | false =>
    refine .bind (.nextIs _) fun dotted => ?_
    cases dotted with
    | true =>
      exact .bind (.consume _) fun _ => .bind (.consume _) fun inner =>
        .pure (Node.scopeAccess id inner)
    | false => exact .pure (Node.identifier id)

theorem MovesRule.named (rule : MovesRule move expr) :
    Moves move (Node.moved move) (named expr) (named expr) := by
  refine .bind (.kindAt 1) fun next => ?_
  by_cases applied : next = some .leftParen
  · subst applied
    exact .bind rule.callHead fun head => .pure (Node.call head.1 head.2 none)
  · simp only [id, applied, ↓reduceIte]
    exact rule.access

theorem MovesRule.parenthesized (rule : MovesRule move expr) :
    Moves move (Node.moved move) (parenthesized expr) (parenthesized expr) := by
  refine .bind (.consume _) fun _ => .bind (rule.required 0 _) fun inner => ?_
  exact .bind (.consume _) fun _ => .pure inner

theorem MovesRule.bracketed (rule : MovesRule move expr) :
    Moves move (Node.moved move) (bracketed expr) (bracketed expr) := by
  refine .bind (.consume _) fun _ => .bind (rule.itemsUntil _) fun elements => ?_
  exact .bind (.consume _) fun _ => .pure (Node.expressionList elements)

theorem MovesRule.negation (rule : MovesRule move expr) :
    Moves move (Node.moved move) (negation expr) (negation expr) := by
  refine .bind (.consume _) fun _ => ?_
  exact .bind (rule.required _ _) fun operand => .pure (Node.notOp operand)

theorem literal_moves : Moves move (Node.moved move)
    (do let value ← consume TokenKind.literals; pure (.literal value))
    (do let value ← consume TokenKind.literals; pure (.literal value)) :=
  .bind (.consume _) fun value => .pure (Node.literal value)

theorem MovesRule.operators (rule : MovesRule move expr) (minimum : Nat) (budget : List Token)
    (left : Node) :
    Moves move (Node.moved move) (operators expr minimum budget left)
      (operators expr minimum (budget.map (Token.moved move)) (left.moved move)) := by
  induction budget generalizing left with
  | nil => exact .pure left
  | cons b budget ih =>
    refine .bind (.kindAt 0) fun next => ?_
    cases next with
    | none => exact .pure left
    | some kind =>
      cases precedence : kind.binaryPrecedence? with
      | none =>
        simp only [id, precedence]
        exact .pure left
      | some p =>
        by_cases loose : p ≤ minimum
        · simp only [id, precedence, loose, ↓reduceIte]
          exact .pure left
        · simp only [id, precedence, loose, ↓reduceIte]
          exact .bind (.consume _) fun op => .bind (rule.required p _) fun right =>
            ih (.binaryOp op left right)

theorem MovesRule.chain (rule : MovesRule move expr) (minimum : Nat) {first : Parse Node}
    (operand : Moves move (Node.moved move) first first) :
    Moves move (Option.map (Node.moved move)) (chain expr minimum first)
      (chain expr minimum first) := by
  refine .bind operand fun left => .bind .unread fun ts => ?_
  exact .bind (rule.operators minimum ts left) fun node => .pure (some node)

theorem MovesRule.body (rule : MovesRule move expr) : MovesRule move (expressionBody expr) := by
  intro minimum
  refine .bind (.kindAt 0) fun next => ?_
  cases next with
  | none => exact .pure none
  | some kind =>
    cases kind with
    | bang => exact .bind rule.negation fun node => .pure (some node)
    | identifier => exact rule.chain minimum rule.named
    | leftParen => exact rule.chain minimum rule.parenthesized
    | leftBracket => exact rule.chain minimum rule.bracketed
    | integer | string | trueWord | falseWord => exact rule.chain minimum literal_moves
    | _ => exact .pure none

theorem expression_moves (n : Nat) : MovesRule move (expression n) := by
  induction n with
  | zero => exact fun _ => .tooDeep
  | succ n ih => exact fun minimum => .deepen (ih.body minimum)

end

/-- The block reads moved tokens as it reads them where they stood. -/
def MovesBlock (move : Location → Location) (block : Parse (List Node)) : Prop :=
  Moves move (mapTokensOfAll (Token.moved move)) block block

section
variable {move : Location → Location} {expr : ExpressionRule} {block : Parse (List Node)}

theorem MovesBlock.guarded (rule : MovesRule move expr) (inner : MovesBlock move block) :
    Moves move (Prod.map (Node.moved move) (mapTokensOfAll (Token.moved move)))
      (guarded expr block) (guarded expr block) := by
  refine .bind (.consume _) fun _ => .bind (.consume _) fun _ => ?_
  refine .bind (rule.required 0 _) fun test => .bind (.consume _) fun _ => ?_
  exact .bind inner fun body => .pure (test, body)

theorem MovesBlock.alternative (rule : MovesRule move expr) (inner : MovesBlock move block)
    (budget : List Token) :
    Moves move (Alternative.mapTokens (Token.moved move)) (alternative expr block budget)
      (alternative expr block (budget.map (Token.moved move))) := by
  induction budget with
  | nil => exact .pure Alternative.absent
  | cons b budget ih =>
    refine .bind (.nextIs .elseWord) fun otherwise => ?_
    cases otherwise with
    | false => exact .pure Alternative.absent
    | true =>
      refine .bind (.consume _) fun _ => .bind (.nextIs .ifWord) fun again => ?_
      cases again with
      | true =>
        exact .bind (inner.guarded rule) fun found => .bind ih fun more =>
          .pure (Alternative.elseIf found.1 found.2 more)
      | false => exact .bind inner fun body => .pure (Alternative.elseBlock body)

theorem MovesBlock.condition (rule : MovesRule move expr) (inner : MovesBlock move block) :
    Moves move (Node.moved move) (condition expr block) (condition expr block) := by
  refine .bind (inner.guarded rule) fun found => .bind .unread fun ts => ?_
  exact .bind (inner.alternative rule ts) fun more =>
    .pure (Node.condition found.1 found.2 more)

theorem MovesRule.assignment (rule : MovesRule move expr) :
    Moves move (Node.moved move) (assignment expr) (assignment expr) := by
  refine .bind rule.access fun target => .bind (.consume _) fun op => ?_
  exact .bind (rule.required 0 _) fun value => .pure (Node.assignment op target value)

theorem MovesBlock.callStatement (rule : MovesRule move expr) (inner : MovesBlock move block) :
    Moves move (Node.moved move) (callStatement expr block) (callStatement expr block) := by
  refine .bind rule.callHead fun head => .bind (.nextIs .leftBrace) fun opened => ?_
  cases opened with
  | true => exact .bind inner fun body => .pure (Node.call head.1 head.2 (some body))
  | false => exact .pure (Node.call head.1 head.2 none)

theorem MovesBlock.statement (rule : MovesRule move expr) (inner : MovesBlock move block) :
    Moves move (Option.map (Node.moved move)) (statement expr block) (statement expr block) := by
  refine .bind (.kindAt 0) fun next => ?_
  cases next with
  | none => exact .pure none
  | some kind =>
    cases kind with
    | ifWord => exact .bind (inner.condition rule) fun node => .pure (some node)
    | identifier =>
      refine .bind (.expectAt 1 _) fun second => ?_
      by_cases applied : second.kind = .leftParen
      · simp only [Token.moved, applied, ↓reduceIte]
        exact .bind (inner.callStatement rule) fun node => .pure (some node)
      · simp only [Token.moved, applied, ↓reduceIte]
        exact .bind rule.assignment fun node => .pure (some node)
    | _ => exact .pure none

theorem MovesBlock.statements (rule : MovesRule move expr) (inner : MovesBlock move block)
    (budget : List Token) :
    Moves move (mapTokensOfAll (Token.moved move)) (statements expr block budget)
      (statements expr block (budget.map (Token.moved move))) := by
  induction budget with
  | nil => exact .pure []
  | cons b budget ih =>
    refine .bind (inner.statement rule) fun found => ?_
    cases found with
    | none => exact .pure []
    | some first => exact .bind ih fun more => .pure (first :: more)

theorem MovesBlock.braced (rule : MovesRule move expr) (inner : MovesBlock move block) :
    MovesBlock move (braced expr block) := by
  refine .bind (.consume _) fun _ => .bind .unread fun ts => ?_
  exact .bind (inner.statements rule ts) fun body => .bind (.consume _) fun _ => .pure body

theorem block_moves (n : Nat) : MovesBlock move (Parse.block n) := by
  induction n with
  | zero => exact .tooDeep
  | succ n ih => exact .deepen (ih.braced (expression_moves n))

theorem file_moves (n : Nat) : MovesBlock move (file n) := by
  refine .bind .unread fun ts => ?_
  refine .bind ((block_moves n).statements (expression_moves n) ts) fun body => ?_
  refine .bind .unread fun left => ?_
  cases left with
  | nil => exact .pure body
  | cons t left => exact .fail _

end

end Parse

/-- Where the kept tokens and the end of the input are moved, the tree is that of the moved tokens
and an error points to the moved place. -/
theorem parseTokens_moved {move : Location → Location} {tokens others : List Token}
    (kept : others.filter Parser.isKept =
      (tokens.filter Parser.isKept).map (Token.moved move))
    (finish : Parser.finishOf others = move (Parser.finishOf tokens)) :
    (∀ tree, parseTokens tokens = .ok tree → parseTokens others = .ok (tree.moved move)) ∧
      ∀ error, parseTokens tokens = .error error →
        parseTokens others = .error (error.moved move) := by
  have moves : Parse.Moves move _ _ _ := Parse.file_moves nestingLimit
  have run := moves (Parser.finishOf tokens) (tokens.filter Parser.isKept)
  rw [parseTokens_eq, parseTokens_eq, kept, finish, run]
  cases Parse.file nestingLimit (Parser.finishOf tokens) (tokens.filter Parser.isKept) with
  | ok body rest =>
    constructor
    · intro tree accepted
      cases accepted
      rfl
    · intro error refused
      cases refused
  | failed failure rest =>
    constructor
    · intro tree accepted
      cases accepted
    · intro error refused
      cases refused
      rfl

end ShiFormat
