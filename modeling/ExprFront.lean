import ExprFront.Main
import ExprFront.Proofs.Canonical
import ExprFront.Proofs.Grouping
import ExprFront.Proofs.Literals
import ExprFront.Proofs.Parser.Grammar
import ExprFront.Proofs.Parser.Blame
import ExprFront.Proofs.Parser.Nesting
import ExprFront.Proofs.Token.Cutting
import ExprFront.Proofs.Token.Layout
import ExprFront.Proofs.Parser.Operations
import ExprFront.Proofs.Precedence.Absent
import ExprFront.Proofs.Spacing
import ExprFront.Proofs.Spelling
import ExprFront.Proofs.Caret
import ExprFront.Proofs.Session.Composition
import ExprFront.Proofs.Parser.Absence
import ExprFront.Proofs.Precedence.Raised
import ExprFront.Proofs.Token.Dump
import ExprFront.Proofs.Token.Pulling
