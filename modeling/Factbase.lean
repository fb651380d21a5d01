import Factbase.Json.Printer
import Factbase.Json.Reader
import Factbase.Step
import Factbase.Proofs.Rounding
import Factbase.Proofs.BaseRelations
import Factbase.Proofs.Bindings
import Factbase.Proofs.Legibility
import Factbase.Proofs.RuleText
import Factbase.Proofs.Satisfaction
import Factbase.Proofs.StratifiedEvaluation
import Factbase.Proofs.Totality
import Factbase.Proofs.Pruning
import Factbase.Proofs.Convergence
import Factbase.Proofs.Idempotence
import Factbase.Proofs.DistinctTuples
import Factbase.Proofs.DistinctAnswers
import Factbase.Proofs.QueryText
import Factbase.Proofs.CompiledClauses
import Factbase.Proofs.CompiledQueries
import Factbase.Proofs.QueryMeaning
import Factbase.Proofs.ConjunctiveQueries
import Factbase.Proofs.Alternatives
import Factbase.Proofs.Monotonicity
import Factbase.Proofs.OrderIndependence
import Factbase.Proofs.CompiledVariables
import Factbase.Proofs.BackedRows
import Factbase.Proofs.ClauseMeaning
import Factbase.Proofs.Truncation
import Factbase.Proofs.Indexing
import Factbase.Proofs.CatalogCaching
import Factbase.Proofs.TokenPlaces
import Factbase.Proofs.ExpectedTokens
import Factbase.Proofs.QueryWriting
import Factbase.Proofs.RuleWriting
import Factbase.Proofs.RuleSets
import Factbase.Proofs.SortedRows
import Factbase.Proofs.GrowingStores
import Factbase.Proofs.NegativeCycles
import Factbase.Proofs.RequiredRelations
import Factbase.Proofs.ColumnLookups
import Factbase.Proofs.GoalOrder
import Factbase.Proofs.Comparisons
import Factbase.Proofs.ValueRanges
import Factbase.Proofs.Cardinalities
import Factbase.Proofs.RowEntities
import Factbase.Proofs.StringLiterals
import Factbase.Proofs.AddedVariables
import Factbase.Proofs.MatchedPatterns
import Factbase.Proofs.ListedAlternatives
import Factbase.Proofs.MergedBindings
import Factbase.Proofs.ResolvedAttributes
import Factbase.Proofs.PassCounts
import Factbase.Proofs.SharedPatterns
import Factbase.Proofs.ScannedRules
import Factbase.Proofs.NumeralLiterals
