import LineCalculator.Evaluation.Stages
import LineCalculator.Main
import LineCalculator.Token.Scanner
import LineCalculator.Text.Split
import LineCalculator.Token.Lexeme
import LineCalculator.Token.Cut
import LineCalculator.Proofs.SignRun.Locality
import LineCalculator.Proofs.Token.Spacing
import LineCalculator.Proofs.Token.Gaps
import LineCalculator.Proofs.SignRun.Runs
import LineCalculator.Proofs.Line.Reading
import LineCalculator.Proofs.Line.Rendering
import LineCalculator.Proofs.Evaluation.Machine
import LineCalculator.Proofs.Expression.Yard
import LineCalculator.Proofs.Expression.Conservation
import LineCalculator.Proofs.Expression.Parentheses
import LineCalculator.Proofs.Expression.Acceptance
import LineCalculator.Proofs.Evaluation.Line
import LineCalculator.Proofs.Expression.Phrase
import LineCalculator.Proofs.Evaluation.Assignment
import LineCalculator.Proofs.Session.History
import LineCalculator.Proofs.Session.Outcome
import LineCalculator.Proofs.Session.Strictness
import LineCalculator.Proofs.Session.Names
import LineCalculator.Proofs.Number.Bits
import LineCalculator.Proofs.Number.Nearest
import LineCalculator.Proofs.Number.Shortest
import LineCalculator.Proofs.Number.Literal
import LineCalculator.Proofs.Number.Printed
import LineCalculator.Proofs.Number.Whole
import LineCalculator.Proofs.Number.Notation
import LineCalculator.Proofs.Evaluation.TypedBack
import LineCalculator.Proofs.SignRun.Parity
import LineCalculator.Proofs.Expression.Groups
import LineCalculator.Proofs.Expression.Order
import LineCalculator.Proofs.Console.Delivery
import LineCalculator.Proofs.Console.OneLine
import LineCalculator.Proofs.Console.Replies
import LineCalculator.Proofs.Console.IdleLines
import LineCalculator.Proofs.Evaluation.Forest
import LineCalculator.Proofs.Token.Scanning
import LineCalculator.Proofs.Number.Forms
import LineCalculator.Proofs.Evaluation.Literals
import LineCalculator.Proofs.Evaluation.SignChain
import LineCalculator.Proofs.Line.Items
import LineCalculator.Proofs.Expression.Enclosed
import LineCalculator.Proofs.Token.Ends
import LineCalculator.Proofs.Evaluation.Enclosed
import LineCalculator.Proofs.Evaluation.Nesting
import LineCalculator.Proofs.Number.Rounding
import LineCalculator.Proofs.Number.Order
import LineCalculator.Proofs.Number.Places
import LineCalculator.Proofs.Number.Lossless
import LineCalculator.Proofs.Line.Padding
import LineCalculator.Proofs.SignRun.Settling
import LineCalculator.Proofs.Expression.Recovery
import LineCalculator.Proofs.Token.Progress
