import WhereClause.Main
import WhereClause.Script
import WhereClause.Proofs.Beneath
import WhereClause.Proofs.Meaning
import WhereClause.Proofs.Alternation
import WhereClause.Proofs.NormalForm
import WhereClause.Proofs.Operations
import WhereClause.Proofs.Allowed
import WhereClause.Proofs.Explained
import WhereClause.Proofs.Lossless
import WhereClause.Proofs.Reachable
import WhereClause.Proofs.Refused
import WhereClause.Proofs.SingleConnector
import WhereClause.Proofs.Statement
import WhereClause.Proofs.SameBuilder
import WhereClause.Proofs.Replaced
import WhereClause.Proofs.FirstRefusal
import WhereClause.Proofs.OperandKinds
import WhereClause.Proofs.JsonText
import WhereClause.Proofs.TypedValue
import WhereClause.Proofs.TypedLine
import WhereClause.Proofs.ShellSession
import WhereClause.Proofs.Nesting
import WhereClause.Proofs.EveryNameAllowed
import WhereClause.Proofs.ConstraintMap
import WhereClause.Proofs.LikePattern
import WhereClause.Proofs.LineGrammar
import WhereClause.Proofs.ConfigText
import WhereClause.Proofs.Lexing
import WhereClause.Proofs.Outline
import WhereClause.Proofs.Foretold
import WhereClause.Proofs.NodeCheck
import WhereClause.Proofs.Scripts
