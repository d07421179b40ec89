import PathQuery.Text.Upper
import PathQuery.Text.Blank
import PathQuery.Text.Quoted
import PathQuery.Text.Search
import PathQuery.Text.Letter
import PathQuery.Number.Notation
import PathQuery.Number.Literal
import PathQuery.Settings
import PathQuery.Store.Build
import PathQuery.Syntax.Grammar
import PathQuery.Conversion
import PathQuery.Error
import PathQuery.Store.Equal
import PathQuery.Store.Shown
import PathQuery.Registry
import PathQuery.Pointer.Read
import PathQuery.Pointer.Order
import PathQuery.Pointer.Test
import PathQuery.Pointer.Write
import PathQuery.Query.Axis
import PathQuery.Query.Operator
import PathQuery.Query.Function
import PathQuery.Query.CoreFunction
import PathQuery.Query.Eval
import PathQuery.Query.Single
import PathQuery.Cache.Expressions
import PathQuery.Query.Compiled
import PathQuery.Diagnostics
import PathQuery.Query.Search
import PathQuery.Proofs.DocumentOrder
import PathQuery.Proofs.FaithfulCache
import PathQuery.Proofs.SortedMembers
import PathQuery.Proofs.Removal
import PathQuery.Proofs.BulkRemoval
import PathQuery.Proofs.ChildChains
import PathQuery.Proofs.Positions
import PathQuery.Proofs.PrintedAddresses
import PathQuery.Proofs.SimplePaths
import PathQuery.Proofs.SimpleWalks
import PathQuery.Proofs.Writes
import PathQuery.Proofs.Failures
import PathQuery.Proofs.Lenience
import PathQuery.Proofs.Independence
import PathQuery.Proofs.PlainWalks
import PathQuery.Proofs.RoundTrip
import PathQuery.Proofs.Effects
import PathQuery.Proofs.FreshObjects
import PathQuery.Proofs.FailedRemoval
import PathQuery.Proofs.ReadAfterWrite
import PathQuery.Proofs.CacheSessions
import PathQuery.Proofs.SoftEntries
import PathQuery.Proofs.AlikeEvaluation
import PathQuery.Proofs.Transparency
import PathQuery.Proofs.CacheAccounts
import PathQuery.Proofs.ForwardWalks
import PathQuery.Proofs.DoubleSlash
import PathQuery.Proofs.RelativeContexts
import PathQuery.Proofs.AxisPartition
import PathQuery.Proofs.CyclicWalks
import PathQuery.Proofs.SiblingSides
import PathQuery.Proofs.ClosedGraphs
import PathQuery.Proofs.AnchoredPointers
import PathQuery.Proofs.FilledPaths
import PathQuery.Proofs.Constructors
import PathQuery.Proofs.MadeNodes
import PathQuery.Proofs.CreatedChains
import PathQuery.Proofs.ResolvedChains
import PathQuery.Proofs.BareSteps
import PathQuery.Proofs.CreatedPaths
import PathQuery.Proofs.CreatedPointers
import PathQuery.Proofs.RepeatedCreation
import PathQuery.Proofs.ComparedItems
import PathQuery.Proofs.Locations
import PathQuery.Proofs.LocatedPaths
import PathQuery.Proofs.Incomparable
import PathQuery.Proofs.Unions
import PathQuery.Proofs.CreatedElements
import PathQuery.Proofs.CreationOrder
import PathQuery.Proofs.ReportedSizes
import PathQuery.Proofs.Progress
import PathQuery.Proofs.Nesting
import PathQuery.Proofs.ErrorPositions
import PathQuery.Proofs.PairedReading
import PathQuery.Proofs.Lexemes
import PathQuery.Proofs.SpacedWords
import PathQuery.Proofs.SpacedTexts
import PathQuery.Proofs.Dispatch
import PathQuery.Proofs.Registrations
import PathQuery.Proofs.Comparisons
import PathQuery.Proofs.ScopeTrees
import PathQuery.Proofs.VariableCalls
import PathQuery.Proofs.SharedScopes
import PathQuery.Proofs.NumberTexts
import PathQuery.Proofs.NamedSlots
import PathQuery.Proofs.Occurrences
