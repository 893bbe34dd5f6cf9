import FactBase.Fact.Archive
import FactBase.Fact.Inspection
import FactBase.Fact.TxForm
import FactBase.Answer.Evaluation
import FactBase.Query.Diagnosis
import FactBase.Query.Session
import FactBase.Sorting.Ascending.Sort
import FactBase.Proofs.Fact.Change
import FactBase.Proofs.Fact.Transacting
import FactBase.Proofs.Fact.Run
import FactBase.Proofs.Fact.Invariant
import FactBase.Proofs.Answer.InputBinding
import FactBase.Proofs.Answer.ClauseOrder
import FactBase.Proofs.Fact.Retraction
import FactBase.Proofs.Fact.Replay
import FactBase.Proofs.Fact.Succession
import FactBase.Proofs.Fact.Typing
import FactBase.Proofs.Fact.Sweep
import FactBase.Proofs.Fact.Removal
import FactBase.Proofs.Fact.Idents
import FactBase.Proofs.Fact.Lookup
import FactBase.Proofs.Fact.Definition
import FactBase.Proofs.Fact.Allocation
import FactBase.Proofs.Fact.Issuing
import FactBase.Proofs.Fact.Freshness
import FactBase.Proofs.Fact.Description
import FactBase.Proofs.Answer.Literal
import FactBase.Proofs.Fact.Twin
import FactBase.Proofs.Fact.Aftermath
import FactBase.Proofs.Query.Compilation
import FactBase.Proofs.Query.Diagnosis
import FactBase.Proofs.Query.Writing
import FactBase.Proofs.Query.Leniency
import FactBase.Proofs.Answer.Declaration
import FactBase.Proofs.Answer.Boundness
import FactBase.Proofs.Query.CanonicalForm
import FactBase.Proofs.Answer.RuleInvocation
import FactBase.Proofs.Fact.Readiness
import FactBase.Proofs.Answer.Reading
import FactBase.Proofs.Fact.Foundation
import FactBase.Proofs.Fact.Storing
import FactBase.Proofs.Fact.SchemaStore
import FactBase.Proofs.Attribute.Shelf
import FactBase.Proofs.Answer.Spelling
import FactBase.Proofs.Answer.Agreement
import FactBase.Proofs.Fact.Assertion
import FactBase.Proofs.Fact.Statement
import FactBase.Proofs.Fact.Rearrangement
import FactBase.Proofs.Fact.Repetition
import FactBase.Proofs.Fact.Withdrawal
import FactBase.Proofs.Value.Rank
import FactBase.Proofs.Fact.Seeking
import FactBase.Proofs.Fact.Partition
import FactBase.Proofs.Answer.IndexLookup
import FactBase.Proofs.Answer.Requests
import FactBase.Proofs.Query.Grammar
import FactBase.Proofs.Value.Quoting
import FactBase.Proofs.Value.Freezing
import FactBase.Proofs.Query.Shapes
import FactBase.Proofs.Answer.Admission
import FactBase.Proofs.Fact.Listing
import FactBase.Proofs.Fact.Chronicle
import FactBase.Proofs.Fact.Confinement
import FactBase.Proofs.Attribute.Registration
import FactBase.Proofs.Attribute.Keyword
import FactBase.Proofs.Answer.Opposites
import FactBase.Proofs.Query.SymbolUsage
import FactBase.Proofs.Query.EqualRows
import FactBase.Proofs.Number.Rounding
