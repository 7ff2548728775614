import Esql.Main
import Esql.Proofs.Callable.Arity
import Esql.Proofs.Callable.Returned
import Esql.Proofs.Callable.Shared
import Esql.Proofs.Check.Nesting
import Esql.Proofs.Check.Prefix
import Esql.Proofs.Check.Raised
import Esql.Proofs.Columns.Literal
import Esql.Proofs.Columns.Order
import Esql.Proofs.Completion.Accepted
import Esql.Proofs.Completion.Call
import Esql.Proofs.Completion.Clauses
import Esql.Proofs.Completion.Listed
import Esql.Proofs.Completion.Ranges
import Esql.Proofs.Completion.Scope
import Esql.Proofs.Completion.Typed
import Esql.Proofs.Extraction.Grok
import Esql.Proofs.Flow.Branches
import Esql.Proofs.Flow.Distinct
import Esql.Proofs.Flow.Groups
import Esql.Proofs.Flow.Joined
import Esql.Proofs.Flow.Settled
import Esql.Proofs.Grammar.Assignment
import Esql.Proofs.Grammar.Consumed
import Esql.Proofs.Grammar.Coverage
import Esql.Proofs.Grammar.Grouping
import Esql.Proofs.Grammar.Innermost
import Esql.Proofs.Grammar.Isolation
import Esql.Proofs.Grammar.Marked
import Esql.Proofs.Grammar.OpenBranch
import Esql.Proofs.Grammar.Tree
import Esql.Proofs.Grammar.Written
import Esql.Proofs.Located.Check
import Esql.Proofs.Schema.Asked
import Esql.Proofs.Schema.Held
import Esql.Proofs.Schema.Kept
import Esql.Proofs.Schema.Lenient
import Esql.Proofs.Schema.Requested
import Esql.Proofs.Silent.Arguments
import Esql.Proofs.Text.Greedy
import Esql.Proofs.Token.Alone
import Esql.Proofs.Token.Tiling
import Esql.Proofs.Traced.Number
import Esql.Schema.Rehearsal
