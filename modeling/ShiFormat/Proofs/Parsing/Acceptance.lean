import ShiFormat.Parser
import ShiFormat.Proofs.Parsing.Soundness

/-!
The parser accepts exactly the token lists of its grammar that nest no deeper than the limit, and
yields the tree that the grammar assigns to them. A token list of the grammar has one depth and one
tree, and past the limit it is refused for its nesting.
-/
namespace ShiFormat
open Grammar Parse

theorem Grammar.Statements.leads_file {d : Nat} {ts : List Token} {body : List Node}
    (h : Statements d ts body) (n : Nat) (finish : Location) :
    Leads finish (d ≤ n) (file n) ts (pure body) [] := by
  have read := h.leads n finish [] ts (headKind_nil _) (by simp)
  rw [List.append_nil] at read
  exact .past unread_run (read.done rfl)

theorem file_sound {n : Nat} {finish : Location} {ts rest : List Token} {body : List Node}
    (run : file n finish ts = .ok body rest) : rest = [] ∧ ∃ d ≤ n, Statements d ts body := by
  obtain ⟨found, mid, read, last⟩ := bind_ok_iff.mp (unread_bind run)
  have stop := unread_bind last
  obtain ⟨used, d, rfl, within, derived⟩ :=
    SoundBlock.statements (expression_sound n) (block_sound n) read
  cases mid with
  | nil =>
    obtain ⟨rfl, rfl⟩ := pure_ok stop
    exact ⟨rfl, d, within, by simpa using derived⟩
  | cons t mid => simp at stop

section
variable {tokens : List Token} {tree : Node}

theorem parseTokens_eq (tokens : List Token) :
    parseTokens tokens =
      match file nestingLimit (Parser.finishOf tokens) (tokens.filter Parser.isKept) with
      | .ok body _ => .ok (.statementList body)
      | .failed failure _ => .error failure.cause := by
  unfold parseTokens Parser.ofTokens Parser.parse
  simp only [Nat.sub_zero]
  split <;> simp_all

theorem parseTokens_of_derived {d : Nat} {body : List Node}
    (h : Statements d (tokens.filter Parser.isKept) body) (within : d ≤ nestingLimit) :
    parseTokens tokens = .ok (.statementList body) := by
  rw [parseTokens_eq, (h.leads_file nestingLimit _).same within, pure_run]

theorem parseTokens_too_deep {d : Nat} {body : List Node}
    (h : Statements d (tokens.filter Parser.isKept) body) (deep : nestingLimit < d) :
    ∃ location, parseTokens tokens = .error (.nestingTooDeep nestingLimit location) := by
  obtain ⟨location, levels, left, refused⟩ :=
    (h.leads_file nestingLimit (Parser.finishOf tokens)).refused (Nat.not_le.mpr deep)
  exact ⟨location, by rw [parseTokens_eq, refused]⟩

theorem Parser.derived_of_parse {p : Parser} (accepted : p.parse.1 = .ok tree) :
    File (nestingLimit - p.depth) p.rest tree := by
  unfold Parser.parse at accepted
  split at accepted
  · next body rest run =>
    obtain ⟨_, d, within, derived⟩ := file_sound run
    exact ⟨d, within, body, derived, (Except.ok.inj accepted).symm⟩
  · cases accepted

theorem derived_of_parseTokens (accepted : parseTokens tokens = .ok tree) :
    File nestingLimit (tokens.filter Parser.isKept) tree :=
  Parser.derived_of_parse accepted

theorem parseTokens_iff :
    parseTokens tokens = .ok tree ↔ File nestingLimit (tokens.filter Parser.isKept) tree := by
  refine ⟨derived_of_parseTokens, ?_⟩
  rintro ⟨d, within, body, derived, rfl⟩
  exact parseTokens_of_derived derived within

end

/-- The tokens of a text that the parser reads: all but the comments and the end of the input. -/
def keptTokens (path : Path) (text : String) : List Token :=
  match tokenize path text with
  | .ok tokens => tokens.filter Parser.isKept
  | .error _ => []

theorem keptTokens_of_read {path : Path} {text : String} {tokens : List Token}
    (read : tokenize path text = .ok tokens) :
    keptTokens path text = tokens.filter Parser.isKept := by
  rw [keptTokens, read]

theorem read_of_parse {path : Path} {text : String} {tree : Node}
    (accepted : parse path text = .ok tree) :
    ∃ tokens, tokenize path text = .ok tokens ∧ parseTokens tokens = .ok tree := by
  rw [parse] at accepted
  cases read : tokenize path text with
  | error cause => rw [read] at accepted; cases accepted
  | ok tokens =>
    rw [read] at accepted
    exact ⟨tokens, rfl, accepted⟩

theorem derived_of_parse {path : Path} {text : String} {tree : Node}
    (accepted : parse path text = .ok tree) : File nestingLimit (keptTokens path text) tree := by
  obtain ⟨tokens, read, accepted⟩ := read_of_parse accepted
  rw [keptTokens_of_read read]
  exact derived_of_parseTokens accepted

theorem accepted_of_check (path : Path) (text : String) (check : Node → Bool)
    (holds : (parse path text).toOption.any check = true) :
    ∃ tree, parse path text = .ok tree ∧ check tree = true := by
  cases accepted : parse path text with
  | error cause => rw [accepted] at holds; cases holds
  | ok tree =>
    rw [accepted] at holds
    exact ⟨tree, rfl, holds⟩

theorem filter_before_end {body : List Token} {sentinel : Token}
    (kept : ∀ t ∈ body, Parser.isKept t) (closed : sentinel.kind = .endOfInput) :
    (body ++ [sentinel]).filter Parser.isKept = body := by
  rw [List.filter_append, List.filter_eq_self.mpr kept]
  simp [Parser.isKept, closed]

/-- The tokens before the end of the input are accepted with a tree if and only if the grammar
derives the tree from all of them within the nesting limit. -/
theorem parsed_iff_derived (body : List Token) (sentinel : Token) (tree : Node)
    (plain : ∀ t ∈ body, t.kind ≠ .comment ∧ t.kind ≠ .endOfInput)
    (closed : sentinel.kind = .endOfInput) :
    parseTokens (body ++ [sentinel]) = .ok tree ↔ File nestingLimit body tree := by
  have kept : ∀ t ∈ body, Parser.isKept t := by
    intro t member
    simp [Parser.isKept, plain t member]
  rw [parseTokens_iff, filter_before_end kept closed]

/-- `x = a == !b + [1, ]` -/
theorem parsed_iff_derived_after_negation :
    let token kind value : Token := ⟨kind, value, .unknown⟩
    let body := [token .identifier "x", token .equal "=", token .identifier "a",
      token .equalEqual "==", token .bang "!", token .identifier "b", token .plus "+",
      token .leftBracket "[", token .integer "1", token .comma ",", token .rightBracket "]"]
    (∀ t ∈ body, t.kind ≠ .comment ∧ t.kind ≠ .endOfInput) ∧
      File nestingLimit body (.statementList [.assignment (token .equal "=")
        (.identifier (token .identifier "x"))
        (.binaryOp (token .plus "+")
          (.binaryOp (token .equalEqual "==") (.identifier (token .identifier "a"))
            (.notOp (.identifier (token .identifier "b"))))
          (.expressionList [.literal (token .integer "1")]))]) := by
  intro token body
  have plain : ∀ t ∈ body, t.kind ≠ .comment ∧ t.kind ≠ .endOfInput := by decide
  exact ⟨plain, (parsed_iff_derived body (.endOfInput .unknown) _ plain rfl).mp rfl⟩

end ShiFormat
