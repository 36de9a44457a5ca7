import PrivateSql.Privacy.Release
import PrivateSql.Sample.Persons
import PrivateSql.Tree.Walk
import PrivateSql.Value.Document
import PrivateSql.Proofs.ExprStructure
import PrivateSql.Proofs.Fallible
import PrivateSql.Proofs.Replacement
import PrivateSql.Proofs.PlanParts
import PrivateSql.Proofs.OuterColumns
import PrivateSql.Proofs.CaseFolding
import PrivateSql.Proofs.PathLookup
import PrivateSql.Proofs.ColumnResolution
import PrivateSql.Proofs.EvaluationFailures
import PrivateSql.Proofs.StoredRows
import PrivateSql.Proofs.GroupPass
import PrivateSql.Proofs.BoundExecution
import PrivateSql.Proofs.ExactNumbers
import PrivateSql.Proofs.IntervalEnclosure
import PrivateSql.Proofs.BoundedEvaluation
import PrivateSql.Proofs.AggregateValues
import PrivateSql.Proofs.Influence
import PrivateSql.Proofs.WrittenConstants
import PrivateSql.Proofs.BindingSoundness
import PrivateSql.Proofs.RowConfinement
import PrivateSql.Proofs.TypedEvaluation
import PrivateSql.Proofs.TypedAnswers
import PrivateSql.Proofs.GroupedExecution
import PrivateSql.Proofs.KeyParts
import PrivateSql.Proofs.GroupRepresentatives
import PrivateSql.Proofs.GeneratedNames
import PrivateSql.Proofs.InsertedPaths
import PrivateSql.Proofs.RewrittenEvaluation
import PrivateSql.Proofs.RecombinedValues
import PrivateSql.Proofs.OuterBinding
import PrivateSql.Proofs.InnerRows
import PrivateSql.Proofs.ShadowedColumns
import PrivateSql.Proofs.OuterCells
import PrivateSql.Proofs.OuterRows
import PrivateSql.Proofs.OuterAnswer
import PrivateSql.Proofs.ExactRows
import PrivateSql.Proofs.RowRemoval
import PrivateSql.Proofs.CalibratedColumns
import PrivateSql.Proofs.Drawings
import PrivateSql.Proofs.NoisedRows
import PrivateSql.Proofs.EventComposition
import PrivateSql.Proofs.BudgetShares
import PrivateSql.Proofs.CountedReleases
import PrivateSql.Proofs.RoundedCounts
import PrivateSql.Proofs.IntegerNumbers
import PrivateSql.Proofs.RowOrder
import PrivateSql.Proofs.NoiseCoupling
import PrivateSql.Proofs.NameCollisions
import PrivateSql.Proofs.FaithfulQueries
import PrivateSql.Proofs.FittingTrees
import PrivateSql.Proofs.ReadQueries
import PrivateSql.Proofs.BoundedAggregates
import PrivateSql.Proofs.StoredBounds
import PrivateSql.Proofs.AnsweredReleases
import PrivateSql.Proofs.StableSorting
import PrivateSql.Proofs.ValueOrder
import PrivateSql.Proofs.OrderedAnswers
import PrivateSql.Proofs.ComparedValues
import PrivateSql.Proofs.KeyEquality
import PrivateSql.Proofs.ListedValues
import PrivateSql.Proofs.NearestNumbers
import PrivateSql.Proofs.ShortestDecimals
import PrivateSql.Proofs.WrittenNumbers
import PrivateSql.Proofs.RereadConstants
import PrivateSql.Proofs.TreeBytes
import PrivateSql.Proofs.SameTrees
import PrivateSql.Proofs.NullPropagation
import PrivateSql.Proofs.TypedReleases
import PrivateSql.Proofs.UnreadTokens
import PrivateSql.Proofs.UnreadCalls
import PrivateSql.Proofs.UnreadTerms
import PrivateSql.Proofs.UnreadTables
import PrivateSql.Proofs.UnreadBlocks
import PrivateSql.Proofs.UnreadQueries
import PrivateSql.Proofs.TrailingTokens
import PrivateSql.Proofs.Traversals
import PrivateSql.Proofs.ColumnLookups
import PrivateSql.Proofs.Qualifiers
import PrivateSql.Proofs.ReadDocuments
import PrivateSql.Proofs.RereadCatalogs
import PrivateSql.Proofs.SuffixLookups
