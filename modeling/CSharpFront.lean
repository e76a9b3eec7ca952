import CSharpFront.Diagnostic.Expectation
import CSharpFront.Main
import CSharpFront.Proofs.Binding.Owners
import CSharpFront.Proofs.Compilation
import CSharpFront.Proofs.Flow.Soundness
import CSharpFront.Proofs.IntegerLocals
import CSharpFront.Proofs.LayoutIndependence
import CSharpFront.Proofs.Parser.Coverage
import CSharpFront.Proofs.Parser.HeightLimit
import CSharpFront.Proofs.Parser.RaisedLimit
import CSharpFront.Proofs.Parser.RoundTrip
import CSharpFront.Proofs.Parser.TypeLookahead
import CSharpFront.Proofs.Types.Universe
import CSharpFront.Syntax.Outline
import CSharpFront.Text.NameTable
import CSharpFront.Proofs.Binding.Accounts
import CSharpFront.Proofs.Binding.AccountsUnit
import CSharpFront.Proofs.Flow.Labels
import CSharpFront.Proofs.Parser.Marks
import CSharpFront.Proofs.Parser.MarksDeclarations
import CSharpFront.Proofs.RefusedCasts
import CSharpFront.Proofs.UnusedLabels
import CSharpFront.Proofs.Binding.Alike
import CSharpFront.Proofs.Binding.Means
import CSharpFront.Proofs.Binding.Reordered
import CSharpFront.Proofs.DeclarationOrder
import CSharpFront.Proofs.DisplayedTypes
import CSharpFront.Proofs.Parser.Geometry
import CSharpFront.Proofs.Lexer.Rescan
import CSharpFront.Proofs.GotoResolution
import CSharpFront.Proofs.VerbatimNames
import CSharpFront.Proofs.RenderedLines
import CSharpFront.Proofs.Parser.Traces
import CSharpFront.Proofs.Parser.Climbing
import CSharpFront.Proofs.Parser.ForHeaders
import CSharpFront.Proofs.Redeclarations
import CSharpFront.Proofs.Lexer.LineBreaks
import CSharpFront.Proofs.Parser.TypeHeightLimit
import CSharpFront.Proofs.Parser.ChoicesAfterTests
import CSharpFront.Proofs.Lexer.Literals
import CSharpFront.Proofs.Binding.NumericTypes
import CSharpFront.Proofs.Types.CastsBack
import CSharpFront.Proofs.Types.Operators
import CSharpFront.Proofs.Binding.BestTypes
import CSharpFront.Proofs.JaggedArrays
import CSharpFront.Proofs.HollowTypes
import CSharpFront.Proofs.Templates
import CSharpFront.Proofs.ReportedView
import CSharpFront.Proofs.Expectations
import CSharpFront.Proofs.Cancellation
import CSharpFront.Proofs.WrittenCodes
import CSharpFront.Proofs.Binding.ConstantValues
import CSharpFront.Proofs.Parser.FirstTokens
