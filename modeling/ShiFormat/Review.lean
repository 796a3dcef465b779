import ShiFormat.Diagnostic
import ShiFormat.Parser

/-!
What there is to say about a source before it is formatted.
-/
namespace ShiFormat

inductive Review where
  | badTokens (error : SourceError)
  | badTree (error : SourceError)
  | hasComment (first : Token)
  | clean

def SourceFile.review (s : SourceFile) : Review :=
  match tokenize s.path s.content with
  | .error error => .badTokens error
  | .ok tokens =>
    match parseTokens tokens, firstComment? tokens with
    | .error error, _ => .badTree error
    | .ok _, some comment => .hasComment comment
    | .ok _, none => .clean

def Review.diagnostic? (s : SourceFile) : Review → Option Diagnostic
  | .badTokens error | .badTree error => some (Diagnostic.ofError s error)
  | .hasComment comment => some (Diagnostic.ofComment s comment)
  | .clean => none

end ShiFormat
