import ShiFormat.Tokenize
import ShiFormat.Parser.Statement

/-!
A parser over one list of tokens. It can be asked for a tree again and again, and goes on from
where it stopped; nesting levels that an error left open stay open.
-/
namespace ShiFormat

structure Parser where
  rest : List Token
  depth : Nat
  finish : Location

namespace Parser

/-- Where the tokens end: at the last end-of-input token, or else at the last token. -/
def finishOf (tokens : List Token) : Location :=
  match tokens.reverse.find? Token.isEndOfInput with
  | some token => token.location
  | none => (tokens.getLast?.map Token.location).getD Location.unknown

def isKept (t : Token) : Bool := t.kind != .comment && t.kind != .endOfInput

def ofTokens (tokens : List Token) : Parser := ⟨tokens.filter isKept, 0, finishOf tokens⟩

/-- The tree of the tokens left, or what is wrong with them, and the parser afterwards. -/
def parse (p : Parser) : Except SourceError Node × Parser :=
  match Parse.file (nestingLimit - p.depth) p.finish p.rest with
  | .ok body rest => (.ok (.statementList body), { p with rest })
  | .failed failure rest =>
    (.error failure.cause, { p with rest, depth := p.depth + failure.openLevels })

end Parser

def parseTokens (tokens : List Token) : Except SourceError Node :=
  (Parser.ofTokens tokens).parse.1

def parse (path : Path) (text : String) : Except SourceError Node :=
  (tokenize path text).bind parseTokens

end ShiFormat
