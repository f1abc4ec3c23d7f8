import Scriptlet.Text.Bytes
import Scriptlet.Text.Blank
import Scriptlet.Text.Alphanumeric
import Scriptlet.Text.Quoted
import Scriptlet.Text.Units
import Scriptlet.Number.Layout
import Scriptlet.Number.Literal
import Scriptlet.Number.Remainder
import Scriptlet.Token.Stream
import Scriptlet.Tree.Node
import Scriptlet.Tree.Outline
import Scriptlet.Grammar.Power
import Scriptlet.Grammar.Rules
import Scriptlet.Session
import Scriptlet.Console.Completion
import Scriptlet.Main
import Scriptlet.Proofs.Safety
import Scriptlet.Proofs.RoundTrip
import Scriptlet.Proofs.Sequencing
import Scriptlet.Proofs.Lossless
import Scriptlet.Proofs.Scopes
import Scriptlet.Proofs.Isolation
import Scriptlet.Proofs.Moves
import Scriptlet.Proofs.Nesting
import Scriptlet.Proofs.SyntaxErrors
import Scriptlet.Proofs.Mirrors
import Scriptlet.Proofs.Places
import Scriptlet.Proofs.Whitespace
import Scriptlet.Proofs.SingleExpression
import Scriptlet.Proofs.NumberText
import Scriptlet.Proofs.TokenList
import Scriptlet.Proofs.Termination
import Scriptlet.Proofs.Entries
import Scriptlet.Proofs.SharedFrames
import Scriptlet.Proofs.Words
import Scriptlet.Proofs.ScannerSteps
import Scriptlet.Proofs.NumberRoundTrip
import Scriptlet.Proofs.LongestMatch
import Scriptlet.Proofs.NumericGrammar
import Scriptlet.Proofs.HexRounding
import Scriptlet.Proofs.NumericStrings
import Scriptlet.Proofs.UnitOrder
import Scriptlet.Proofs.Literals
import Scriptlet.Proofs.Assignments
import Scriptlet.Proofs.Loops
import Scriptlet.Proofs.Returns
import Scriptlet.Proofs.Calls
import Scriptlet.Proofs.Brackets
import Scriptlet.Proofs.WordStarts
import Scriptlet.Proofs.Highlighting
import Scriptlet.Proofs.Locality
import Scriptlet.Proofs.Requests
