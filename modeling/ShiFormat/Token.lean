import ShiFormat.TokenKind
import ShiFormat.Span

/-!
Tokens: a kind, the text it was read from, and where it stood.
-/
namespace ShiFormat

structure Token where
  kind : TokenKind
  value : String
  location : Location
  deriving Repr

namespace Token

/-- A kind with a fixed spelling takes that spelling, whatever the text says. -/
def ofText (kind : TokenKind) (text : String) (location : Location) : Token :=
  ⟨kind, kind.spelling?.getD text, location⟩

def endOfInput (location : Location) : Token := ⟨.endOfInput, "", location⟩

def isEndOfInput (t : Token) : Bool := t.kind == .endOfInput

def span (t : Token) : Span := Span.across t.location t.value.length

/-- Same kind and text, wherever the two tokens stand. -/
def sameAs (a b : Token) : Bool := a.kind == b.kind && a.value == b.value

instance : BEq Token :=
  ⟨fun a b => a.kind == b.kind && a.value == b.value && a.location == b.location⟩

instance : ToString Token :=
  ⟨fun t => if t.isEndOfInput then "<end of input>" else t.value⟩

end Token
end ShiFormat
