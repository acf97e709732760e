import ScriptFront.Statement.Chain
import ScriptFront.Statement.Writer
import ScriptFront.Session
import ScriptFront.Token.Reader
import ScriptFront.Log
import ScriptFront.Proofs.Expr.Correct
import ScriptFront.Proofs.Statement.Legible
import ScriptFront.Proofs.Statement.RoundTrip
import ScriptFront.Proofs.Statement.Deepest
import ScriptFront.Proofs.Statement.Levels
import ScriptFront.Proofs.Statement.Concatenation
import ScriptFront.Proofs.Statement.Faults
import ScriptFront.Proofs.Statement.Layout
import ScriptFront.Proofs.Statement.Again
import ScriptFront.Proofs.Token.Written
import ScriptFront.Proofs.Token.Places
import ScriptFront.Proofs.Token.Quotation
import ScriptFront.Proofs.Statement.FirstFault
import ScriptFront.Proofs.Statement.Termination
import ScriptFront.Proofs.Expr.Numerals
import ScriptFront.Proofs.Expr.Accounting
import ScriptFront.Proofs.Statement.Equality
import ScriptFront.Proofs.Statement.Display
