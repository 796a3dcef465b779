import ShiFormat.Comparison
import ShiFormat.Review
import ShiFormat.Main
import ShiFormat.Proofs.Parsing.Acceptance
import ShiFormat.Proofs.Parsing.Stored
import ShiFormat.Proofs.Canonical.RoundTrip
import ShiFormat.Proofs.Precedence.Binding
import ShiFormat.Proofs.Precedence.Depth
import ShiFormat.Proofs.Lexing.Longest
import ShiFormat.Proofs.Lexing.Munch
import ShiFormat.Proofs.Lexing.Lossless
import ShiFormat.Proofs.Errors.Prompt
import ShiFormat.Proofs.Errors.Rounds
import ShiFormat.Proofs.Errors.Expression
import ShiFormat.Proofs.Errors.Statement
import ShiFormat.Proofs.Errors.FirstWrong
import ShiFormat.Proofs.Canonical.Form
import ShiFormat.Proofs.Canonical.Content
import ShiFormat.Proofs.Parsing.Moved
import ShiFormat.Proofs.Lexing.Insertion
import ShiFormat.Proofs.Parsing.Insertion
import ShiFormat.Proofs.Nesting.Chains
import ShiFormat.Proofs.Parsing.Joined
import ShiFormat.Proofs.Command.AllOrNothing
import ShiFormat.Proofs.State.Calls
import ShiFormat.Proofs.Faultless.Pipeline
import ShiFormat.Proofs.Command.Rewriting
import ShiFormat.Proofs.Command.Verbosity
import ShiFormat.Proofs.Canonical.Shown
import ShiFormat.Proofs.Canonical.Unplaced
import ShiFormat.Proofs.Indentation.Lines
import ShiFormat.Proofs.Canonical.Truncated
import ShiFormat.Proofs.Parentheses.Needed
import ShiFormat.Proofs.Outline.Faithful
import ShiFormat.Proofs.Outline.Cut
import ShiFormat.Proofs.Diagnostics.Alignment
import ShiFormat.Proofs.Diagnostics.Uncoloured
import ShiFormat.Proofs.Lexing.Moves
import ShiFormat.Proofs.Order.Regions
