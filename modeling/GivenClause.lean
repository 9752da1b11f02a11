import GivenClause.Text.Layout
import GivenClause.Text.Uppercase
import GivenClause.Text.Printable
import GivenClause.Text.Digit
import GivenClause.Text.Blank
import GivenClause.Text.Quoted
import GivenClause.Rounding
import GivenClause.Decimal
import GivenClause.Decimal.Shortest
import GivenClause.Seconds
import GivenClause.Seconds.Reader
import GivenClause.Json
import GivenClause.Term
import GivenClause.Term.Named
import GivenClause.Substitution
import GivenClause.Matching
import GivenClause.Unification
import GivenClause.Text.Sorted
import GivenClause.Literal
import GivenClause.NameSupply
import GivenClause.Index
import GivenClause.Clause
import GivenClause.Format.Lexeme
import GivenClause.Format.Statement
import GivenClause.Format.Read
import GivenClause.ClauseSet
import GivenClause.Inference
import GivenClause.Subsumption
import GivenClause.Schedule
import GivenClause.Queue
import GivenClause.ScoredSet
import GivenClause.Filter
import GivenClause.Archive
import GivenClause.Derivation.Graph
import GivenClause.Derivation.Ancestry
import GivenClause.Derivation
import GivenClause.Search.TimeLimit
import GivenClause.Search.State
import GivenClause.Search.Step
import GivenClause.Search.Run
import GivenClause.Search.Report
import GivenClause.Files.Standard
import GivenClause.Files.Path
import GivenClause.Files.Tree
import GivenClause.Problem.Load
import GivenClause.Search.Compare
import GivenClause.Problem.Sample
import GivenClause.CommandLine.Option
import GivenClause.CommandLine.Request
import GivenClause.CommandLine.Help
import GivenClause.CommandLine.Run
import GivenClause.Main
import GivenClause.Proofs.Computations
import GivenClause.Proofs.Composition
import GivenClause.Proofs.MostGeneralUnifier
import GivenClause.Proofs.Instances
import GivenClause.Proofs.VariableRenaming
import GivenClause.Proofs.Interpretation
import GivenClause.Proofs.Conclusions
import GivenClause.Proofs.Backtracking
import GivenClause.Proofs.SubsumptionOrder
import GivenClause.Proofs.RenamingApart
import GivenClause.Proofs.Queues
import GivenClause.Proofs.Removal
import GivenClause.Proofs.Transitions
import GivenClause.Proofs.Sessions
import GivenClause.Proofs.RefutationSoundness
import GivenClause.Proofs.GivenClauseInvariant
import GivenClause.Proofs.PositiveResolution
import GivenClause.Proofs.Completeness
import GivenClause.Proofs.GroundClauses
import GivenClause.Proofs.GroundDecision
import GivenClause.Proofs.ClauseNames
import GivenClause.Proofs.SearchHistory
import GivenClause.Proofs.Ancestors
import GivenClause.Proofs.PremisesFirst
import GivenClause.Proofs.Reconstruction
import GivenClause.Proofs.RenamedInferences
import GivenClause.Proofs.NameIndependence
import GivenClause.Proofs.Words
import GivenClause.Proofs.CanonicalClauses
import GivenClause.Proofs.Tokens
import GivenClause.Proofs.Phrases
import GivenClause.Proofs.PrintedClauses
import GivenClause.Proofs.Verdicts
import GivenClause.Proofs.RoundRobin
import GivenClause.Proofs.FairSelection
import GivenClause.Proofs.FollowingPaths
import GivenClause.Proofs.Inclusions
import GivenClause.Proofs.Grammar
import GivenClause.Proofs.ReadingDerivations
import GivenClause.Proofs.DerivedReadings
import GivenClause.Proofs.Interruptions
import GivenClause.Proofs.Bookkeeping
import GivenClause.Proofs.Irredundancy
import GivenClause.Proofs.FunctionFree
import GivenClause.Proofs.CheckedUnification
import GivenClause.Proofs.UncheckedLoop
import GivenClause.Proofs.RecordedDerivations
import GivenClause.Proofs.ExactMatching
import GivenClause.Proofs.QueueHistories
import GivenClause.Proofs.ExhaustiveResolution
import GivenClause.Proofs.Idempotence
import GivenClause.Proofs.Trail
import GivenClause.Proofs.RequestedNames
