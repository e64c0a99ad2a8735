import Reckon.Binary64.Bits
import Reckon.Main
import Reckon.Proofs.Binary64.Remainder
import Reckon.Proofs.CommandLine.Agreement
import Reckon.Proofs.CommandLine.Printed
import Reckon.Proofs.CommandLine.Reuse
import Reckon.Proofs.Equation.Group
import Reckon.Proofs.Grammar.Acceptance
import Reckon.Proofs.Piece.Diagnosis
import Reckon.Proofs.Rpn.Decoding
import Reckon.Proofs.Rpn.Rivals
import Reckon.Proofs.Solver.Accounting
import Reckon.Proofs.Solver.Inclusion
import Reckon.Proofs.Solver.LeastRecentlyUsed
import Reckon.Proofs.Text.LineEnds
import Reckon.Proofs.Token.Neighbours
import Reckon.Proofs.Binary64.Nearest
import Reckon.Proofs.Token.Literal
import Reckon.Proofs.Equation.PostfixText
