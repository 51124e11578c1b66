import LambdaCheck.Token.Basic
import LambdaCheck.Token.Lexer
import LambdaCheck.Token.Shape
import LambdaCheck.Diagnostic
import LambdaCheck.Text
import LambdaCheck.Syntax.Expected
import LambdaCheck.Syntax.Finding
import LambdaCheck.Syntax.Machine
import LambdaCheck.Syntax.Checker
import LambdaCheck.Syntax.Grammar
import LambdaCheck.Syntax.Descent
import LambdaCheck.Json
import LambdaCheck.Report
import LambdaCheck.Cli.Options
import LambdaCheck.Cli.Listing
import LambdaCheck.Cli.Session
import LambdaCheck.Cli.Directory
import LambdaCheck.Main
import LambdaCheck.Proofs.Moves
import LambdaCheck.Proofs.Reads
import LambdaCheck.Proofs.Derivation
import LambdaCheck.Proofs.Recognition
import LambdaCheck.Proofs.BracketCount
import LambdaCheck.Proofs.Layout
import LambdaCheck.Proofs.Shapes
import LambdaCheck.Proofs.MaximalMunch
import LambdaCheck.Proofs.Ranges
import LambdaCheck.Proofs.Progress
import LambdaCheck.Proofs.Composition
import LambdaCheck.Proofs.Ordering
import LambdaCheck.Proofs.Positions
import LambdaCheck.Proofs.Simulation
