/-!
The kinds of token of a build file, how they are spelled and described, and how tightly the
operators among them bind.
-/
namespace ShiFormat

inductive TokenKind where
  | endOfInput
  | integer
  | string
  | identifier
  | trueWord
  | falseWord
  | comma
  | ifWord
  | elseWord
  | plus
  | minus
  | bang
  | equal
  | plusEquals
  | minusEquals
  | equalEqual
  | notEqual
  | lessEqual
  | greaterEqual
  | less
  | greater
  | andAnd
  | orOr
  | dot
  | leftParen
  | rightParen
  | leftBracket
  | rightBracket
  | leftBrace
  | rightBrace
  | comment
  deriving DecidableEq, Repr

namespace TokenKind

/-- The text of a kind that is always written the same way. -/
def spelling? : TokenKind → Option String
  | .trueWord => some "true"
  | .falseWord => some "false"
  | .comma => some ","
  | .ifWord => some "if"
  | .elseWord => some "else"
  | .plus => some "+"
  | .minus => some "-"
  | .bang => some "!"
  | .equal => some "="
  | .plusEquals => some "+="
  | .minusEquals => some "-="
  | .equalEqual => some "=="
  | .notEqual => some "!="
  | .lessEqual => some "<="
  | .greaterEqual => some ">="
  | .less => some "<"
  | .greater => some ">"
  | .andAnd => some "&&"
  | .orOr => some "||"
  | .dot => some "."
  | .leftParen => some "("
  | .rightParen => some ")"
  | .leftBracket => some "["
  | .rightBracket => some "]"
  | .leftBrace => some "\x7b"
  | .rightBrace => some "\x7d"
  | .endOfInput | .integer | .string | .identifier | .comment => none

def keyword? : String → Option TokenKind
  | "if" => some .ifWord
  | "else" => some .elseWord
  | "true" => some .trueWord
  | "false" => some .falseWord
  | _ => none

def describe : TokenKind → String
  | .endOfInput => "end of input"
  | .integer => "integer literal"
  | .string => "string literal"
  | .identifier => "identifier"
  | .trueWord => "\"true\" keyword"
  | .falseWord => "\"false\" keyword"
  | .comma => "comma"
  | .ifWord => "\"if\" keyword"
  | .elseWord => "\"else\" keyword"
  | .plus => "addition"
  | .minus => "subtraction"
  | .bang => "logical \"not\""
  | .equal => "assignment"
  | .plusEquals => "appending assignment"
  | .minusEquals => "removing assignment"
  | .equalEqual => "equality"
  | .notEqual => "inequality"
  | .lessEqual => "\"less or equal\" comparison"
  | .greaterEqual => "\"greater or equal\" comparison"
  | .less => "\"strictly less\" comparison"
  | .greater => "\"strictly greater\" comparison"
  | .andAnd => "logical \"and\""
  | .orOr => "logical \"or\""
  | .dot => "scope access"
  | .leftParen => "left parenthesis"
  | .rightParen => "right parenthesis"
  | .leftBracket => "left bracket"
  | .rightBracket => "right bracket"
  | .leftBrace => "left brace"
  | .rightBrace => "right brace"
  | .comment => "comment"

instance : ToString TokenKind := ⟨describe⟩

def assignmentOperators : List TokenKind := [.equal, .plusEquals, .minusEquals]

def literals : List TokenKind := [.integer, .string, .trueWord, .falseWord]

theorem mem_assignmentOperators {kind : TokenKind} :
    kind ∈ assignmentOperators ↔ kind = .equal ∨ kind = .plusEquals ∨ kind = .minusEquals := by
  simp [assignmentOperators]

theorem mem_literals {kind : TokenKind} :
    kind ∈ literals ↔
      kind = .integer ∨ kind = .string ∨ kind = .trueWord ∨ kind = .falseWord := by
  simp [literals]

/-- How tightly an operator binds; a higher number binds tighter. -/
def precedence? : TokenKind → Option Nat
  | .equal | .plusEquals | .minusEquals => some 1
  | .orOr => some 2
  | .andAnd => some 3
  | .equalEqual | .notEqual => some 4
  | .lessEqual | .greaterEqual | .less | .greater => some 5
  | .plus | .minus => some 6
  | .bang => some 7
  | _ => none

/-- The precedence of an operator, and 0 for any other kind. -/
def rank (kind : TokenKind) : Nat := kind.precedence?.getD 0

/-- What is said of a kind that is asked for its precedence and has none. -/
def noPrecedence (kind : TokenKind) : String := s!"{kind.describe} has no precedence"

/-- The precedence of the operators that stand between two operands of an expression. -/
def binaryPrecedence? : TokenKind → Option Nat
  | .orOr => some 2
  | .andAnd => some 3
  | .equalEqual | .notEqual => some 4
  | .lessEqual | .greaterEqual | .less | .greater => some 5
  | .plus | .minus => some 6
  | _ => none

theorem precedence_of_binary {kind : TokenKind} {n : Nat}
    (h : kind.binaryPrecedence? = some n) : kind.precedence? = some n := by
  cases kind <;> simp_all [binaryPrecedence?, precedence?]

theorem rank_of_binary {kind : TokenKind} {n : Nat} (h : kind.binaryPrecedence? = some n) :
    kind.rank = n := by
  rw [rank, precedence_of_binary h, Option.getD_some]

/-- Every operator between two operands binds, and none as tightly as a negation. -/
theorem binary_bounds {kind : TokenKind} {n : Nat} (h : kind.binaryPrecedence? = some n) :
    0 < n ∧ n < bang.rank := by
  have negation : bang.rank = 7 := rfl
  cases kind <;> simp only [binaryPrecedence?, Option.some.injEq, reduceCtorEq] at h <;> omega

end TokenKind
end ShiFormat
