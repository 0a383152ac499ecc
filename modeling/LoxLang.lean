import LoxLang.Main
import LoxLang.Proofs.Grammar.Recognition
import LoxLang.Proofs.Environment.Scopes
import LoxLang.Proofs.Evaluation.Discipline
import LoxLang.Proofs.Evaluation.Restoration
import LoxLang.Proofs.Evaluation.Parts
import LoxLang.Proofs.Evaluation.Declarations
import LoxLang.Proofs.Evaluation.Requests
import LoxLang.Proofs.Environment.Names
import LoxLang.Proofs.Evaluation.Meaning
import LoxLang.Proofs.Evaluation.MeaningSound
import LoxLang.Proofs.Evaluation.MeaningComplete
import LoxLang.Proofs.Evaluation.Refinement
import LoxLang.Proofs.Token.LongestMatch
import LoxLang.Proofs.Token.Tokenisation
import LoxLang.Proofs.Token.Scanning
import LoxLang.Proofs.Evaluation.Isolation
import LoxLang.Proofs.Grammar.Outcome
import LoxLang.Proofs.Grammar.Regularity
import LoxLang.Proofs.Evaluation.Regularity
import LoxLang.Proofs.Session.Regularity
import LoxLang.Proofs.Grammar.Locality
import LoxLang.Proofs.Grammar.ExpressionLocality
import LoxLang.Proofs.Grammar.StatementLocality
import LoxLang.Proofs.Grammar.Sequencing
import LoxLang.Proofs.Grammar.Blame
import LoxLang.Proofs.Grammar.ExpressionBlame
import LoxLang.Proofs.Grammar.StatementBlame
import LoxLang.Proofs.Grammar.FirstFatal
import LoxLang.Proofs.Evaluation.Termination
import LoxLang.Proofs.Environment.Mapping
import LoxLang.Proofs.Tree.Renumbering
import LoxLang.Proofs.Evaluation.Comparison
import LoxLang.Proofs.Sink
import LoxLang.Proofs.Evaluation.Output
import LoxLang.Proofs.Session.Reporting
import LoxLang.Proofs.Session.Truncation
import LoxLang.Proofs.Evaluation.Invariance
import LoxLang.Proofs.Grammar.Renumbering
import LoxLang.Proofs.Token.Joining
import LoxLang.Proofs.Evaluation.Sequencing
import LoxLang.Proofs.Session.Joining
import LoxLang.Proofs.CommandLine.Agreement
import LoxLang.Proofs.Environment.Gap
import LoxLang.Proofs.Evaluation.EmptyScope
import LoxLang.Proofs.Evaluation.Binding
import LoxLang.Proofs.Evaluation.Approximation
import LoxLang.Proofs.Evaluation.Counting
import LoxLang.Proofs.Evaluation.CallsInProgress
import LoxLang.Proofs.Evaluation.Failure
import LoxLang.Proofs.Evaluation.Limit
import LoxLang.Proofs.Token.Spacing
import LoxLang.Proofs.Tree.Notation
import LoxLang.Proofs.Grammar.Notation
import LoxLang.Proofs.Environment.Chains
import LoxLang.Proofs.Evaluation.Operations
import LoxLang.Proofs.Token.Lines
import LoxLang.Proofs.Grammar.Parser
import LoxLang.Proofs.Grammar.Cursor
import LoxLang.Proofs.Grammar.ExpressionCursor
import LoxLang.Proofs.Grammar.StatementCursor
import LoxLang.Proofs.Grammar.Parsing
import LoxLang.Proofs.Evaluation.Handles
import LoxLang.Proofs.Grammar.MissingSemicolon
import LoxLang.Proofs.Token.Calls
import LoxLang.Proofs.Number.Rounding
import LoxLang.Proofs.Number.Digits
import LoxLang.Proofs.Number.Shortest
import LoxLang.Proofs.Number.Text
import LoxLang.Proofs.Evaluation.Executions
import LoxLang.Proofs.Evaluation.Accounts
import LoxLang.Proofs.Evaluation.Provenance
import LoxLang.Proofs.Session.Identity
import LoxLang.Proofs.Tree.Sexp
import LoxLang.Proofs.Tree.Outline
import LoxLang.Proofs.Tree.ReadBack
import LoxLang.Proofs.Grammar.Readability
