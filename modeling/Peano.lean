import Peano.Files.Fill
import Peano.Main
import Peano.Proofs.Batch.Progress
import Peano.Proofs.Destructuring
import Peano.Proofs.Diagnostic.Accounting
import Peano.Proofs.Editor.Documents
import Peano.Proofs.Editor.Framing
import Peano.Proofs.Editor.Lines
import Peano.Proofs.Editor.Offsets
import Peano.Proofs.Editor.QuickFixes
import Peano.Proofs.Formula.Calls
import Peano.Proofs.Formula.Symmetry
import Peano.Proofs.Grammar.Interpretation
import Peano.Proofs.Grammar.Vanishing
import Peano.Proofs.Instantiation
import Peano.Proofs.Logs
import Peano.Proofs.Number.Signed
import Peano.Proofs.Opacity
import Peano.Proofs.Realizer.Iteration
import Peano.Proofs.Safety
import Peano.Proofs.Source.Settled
import Peano.Proofs.Supersession
import Peano.Proofs.Syntax.Comments
import Peano.Proofs.Syntax.Nesting
import Peano.Proofs.Syntax.RoundTrip
import Peano.Proofs.Token.Lossless
import Peano.Proofs.Transitivity
