/-!
Coloured text for terminals. A styled text stands between an opening sequence and a reset; a reset
inside the text would end the style, so the opening is repeated after each one.
-/
namespace ShiFormat

inductive Style where
  | error
  | warning
  | bold
  | frame
  | place
  deriving DecidableEq, Repr

namespace Style

def codes : Style → String
  | .error => "1;31"
  | .warning => "1;33"
  | .bold => "1"
  | .frame => "1;36"
  | .place => "36"

def opening (s : Style) : List Char := '\x1b' :: '[' :: s.codes.toList ++ ['m']

def reset : List Char := ['\x1b', '[', '0', 'm']

def reopen (again : List Char) : List Char → List Char
  | '\x1b' :: '[' :: '0' :: 'm' :: rest => reset ++ again ++ reopen again rest
  | c :: rest => c :: reopen again rest
  | [] => []

def paint (colour : Bool) (s : Style) (text : List Char) : List Char :=
  if colour then s.opening ++ reopen s.opening text ++ reset else text

end Style
end ShiFormat
