import Groundplan.Analysis
import Groundplan.Body
import Groundplan.Body.Reader
import Groundplan.CommandLine
import Groundplan.CommandLine.Arguments
import Groundplan.Datum
import Groundplan.Dependency
import Groundplan.Digest.Blocks
import Groundplan.Digest.Md5
import Groundplan.Digest.Sha2
import Groundplan.Evaluation
import Groundplan.Evaluation.Location
import Groundplan.Evaluation.Records
import Groundplan.Expression
import Groundplan.Expression.Evaluation
import Groundplan.Expression.Outcome
import Groundplan.Expression.Reader
import Groundplan.Expression.References
import Groundplan.Expression.Template
import Groundplan.Failure
import Groundplan.Files
import Groundplan.Files.Path
import Groundplan.Function
import Groundplan.Function.Collection
import Groundplan.Function.Conversion
import Groundplan.Function.Encoding
import Groundplan.Function.Library
import Groundplan.Function.Numeric
import Groundplan.Function.Text
import Groundplan.Graph
import Groundplan.Graph.Countdown
import Groundplan.Json
import Groundplan.Json.Reader
import Groundplan.Main
import Groundplan.Module.Content
import Groundplan.Module.Tree
import Groundplan.Module.Walk
import Groundplan.Name
import Groundplan.NameTable
import Groundplan.NameTrie
import Groundplan.Numeric.Binary64
import Groundplan.Numeric.Decimal
import Groundplan.Numeric.Number
import Groundplan.Numeric.Power
import Groundplan.Pattern
import Groundplan.Pattern.Reader
import Groundplan.Phantom
import Groundplan.Problem
import Groundplan.Project
import Groundplan.Registry
import Groundplan.Resource
import Groundplan.Source
import Groundplan.Source.Lines
import Groundplan.Table
import Groundplan.Term
import Groundplan.Text.Base64
import Groundplan.Text.Case
import Groundplan.Text.Classes
import Groundplan.Text.Ranges
import Groundplan.Text.Search
import Groundplan.Toml
import Groundplan.Toml.Assembly
import Groundplan.Toml.Quoted
import Groundplan.Toml.Reader
import Groundplan.Toml.Scalar
import Groundplan.Value
import Groundplan.Value.Json
import Groundplan.Value.Tree
import Groundplan.VariableFile
import Groundplan.Proofs.Index
import Groundplan.Proofs.Resolution
import Groundplan.Proofs.NameTries
import Groundplan.Proofs.References
import Groundplan.Proofs.Names
import Groundplan.Proofs.Accessors
import Groundplan.Proofs.Graphs
import Groundplan.Proofs.Schedules
import Groundplan.Proofs.Destinations
import Groundplan.Proofs.Passes
import Groundplan.Proofs.Scopes
import Groundplan.Proofs.Agreement
import Groundplan.Proofs.Reads
import Groundplan.Proofs.TermReads
import Groundplan.Proofs.Fixpoint
import Groundplan.Proofs.Successes
import Groundplan.Proofs.Unknowns
import Groundplan.Proofs.Modules
import Groundplan.Proofs.Boundaries
import Groundplan.Proofs.Sightings
import Groundplan.Proofs.Phantoms
import Groundplan.Proofs.SharedCalls
import Groundplan.Proofs.Encapsulation
import Groundplan.Proofs.Growth
import Groundplan.Proofs.Loading
import Groundplan.Proofs.Cycles
import Groundplan.Proofs.Instances
import Groundplan.Proofs.Materialization
import Groundplan.Proofs.Declarations
import Groundplan.Proofs.Layouts
import Groundplan.Proofs.Rearrangements
import Groundplan.Proofs.LayoutIndependence
import Groundplan.Proofs.Completeness
import Groundplan.Proofs.Shadowing
import Groundplan.Proofs.NestedBlocks
import Groundplan.Proofs.Sources
import Groundplan.Proofs.Questions
import Groundplan.Proofs.Containment
import Groundplan.Proofs.Deadlocks
import Groundplan.Proofs.Countdowns
import Groundplan.Proofs.CanonicalOrders
import Groundplan.Proofs.Splices
import Groundplan.Proofs.Patches
import Groundplan.Proofs.Lookups
import Groundplan.Proofs.Merges
import Groundplan.Proofs.VariableInputs
import Groundplan.Proofs.Locations
import Groundplan.Proofs.Listings
import Groundplan.Proofs.Conversions
import Groundplan.Proofs.BlockParts
import Groundplan.Proofs.Providers
import Groundplan.Proofs.Rounding
import Groundplan.Proofs.NumericFunctions
import Groundplan.Proofs.DecimalTexts
import Groundplan.Proofs.Substrings
import Groundplan.Proofs.Equalities
import Groundplan.Proofs.SortOrders
import Groundplan.Proofs.Sets
import Groundplan.Proofs.Calls
import Groundplan.Proofs.Positions
import Groundplan.Proofs.Formats
import Groundplan.Proofs.Splitting
import Groundplan.Proofs.ObjectLists
