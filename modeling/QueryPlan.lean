import QueryPlan.Build.Frontier
import QueryPlan.Predicate.Condition
import QueryPlan.Build.Stages
import QueryPlan.Catalog.Basic
import QueryPlan.Catalog.Descriptor
import QueryPlan.Catalog.Settings
import QueryPlan.Catalog.Statistics
import QueryPlan.Command.Options
import QueryPlan.Command.Run
import QueryPlan.Estimate.Pass
import QueryPlan.Estimate.Paging
import QueryPlan.Estimate.Selectivity
import QueryPlan.Event
import QueryPlan.Failure
import QueryPlan.Join.Algorithm
import QueryPlan.Join.Graph
import QueryPlan.Join.Grouping
import QueryPlan.Json.Value
import QueryPlan.Json.Printer
import QueryPlan.Json.Reader
import QueryPlan.Main
import QueryPlan.Number.Binary64
import QueryPlan.Number.Logarithm
import QueryPlan.Number.Numeral
import QueryPlan.Number.Rounding
import QueryPlan.Number.RealText
import QueryPlan.Number.Shortest
import QueryPlan.OrderedMap
import QueryPlan.Relation.Schema
import QueryPlan.Plan.Basic
import QueryPlan.Plan.Rendering
import QueryPlan.Plan.Traversal
import QueryPlan.Predicate.Comparator
import QueryPlan.Program
import QueryPlan.Random.Draws
import QueryPlan.Relation.Attribute
import QueryPlan.Report.Batch
import QueryPlan.Report.Table
import QueryPlan.Script.Statements
import QueryPlan.Session
import QueryPlan.Sql.Expr
import QueryPlan.Sql.Reader.Expr
import QueryPlan.Sql.Reader.Parser
import QueryPlan.Sql.Reader.Rendering
import QueryPlan.Sql.Reader.Select
import QueryPlan.Sql.Reader.Statement
import QueryPlan.Sql.Reader.Token
import QueryPlan.Sql.Resolution
import QueryPlan.Sql.Scope
import QueryPlan.Sql.Statement
import QueryPlan.Store.Files
import QueryPlan.Store.Writing
import QueryPlan.Text.Characters
import QueryPlan.Text.Quoted
import QueryPlan.Text.Utf8
import QueryPlan.Text.Word
import QueryPlan.Proofs.Join.Leaders
import QueryPlan.Proofs.Plan.Parts
import QueryPlan.Proofs.Program
import QueryPlan.Proofs.Build.Frontier
import QueryPlan.Proofs.Build.Scans
import QueryPlan.Proofs.Build.Qualification
import QueryPlan.Proofs.Build.Stages
import QueryPlan.Proofs.Build.Partition
import QueryPlan.Proofs.Build.Conditions
import QueryPlan.Proofs.Join.Components
import QueryPlan.Proofs.Build.Joins
import QueryPlan.Proofs.Estimate.Pass
import QueryPlan.Proofs.Estimate.Scope
import QueryPlan.Proofs.Build.Scope
import QueryPlan.Proofs.Estimate.Selectivity
import QueryPlan.Proofs.Estimate.Algorithms
import QueryPlan.Proofs.Estimate.Feasibility
import QueryPlan.Proofs.Estimate.Reports
import QueryPlan.Proofs.Estimate.Resources
import QueryPlan.Proofs.Estimate.Bits
import QueryPlan.Proofs.Estimate.Limits
import QueryPlan.Proofs.Estimate.Divisors
import QueryPlan.Proofs.Build.Paging
import QueryPlan.Proofs.Build.Lookups
import QueryPlan.Proofs.Join.Links
import QueryPlan.Proofs.Build.Recolumning
import QueryPlan.Proofs.Build.Alike
import QueryPlan.Proofs.Build.Naming
import QueryPlan.Proofs.Sql.Rewriting
import QueryPlan.Proofs.Sql.Turning
import QueryPlan.Proofs.Sql.Qualifying
import QueryPlan.Proofs.Build.Disguises
import QueryPlan.Proofs.Build.Tallies
import QueryPlan.Proofs.Build.Clauses
import QueryPlan.Proofs.Build.Codes
import QueryPlan.Proofs.Build.Omissions
import QueryPlan.Proofs.Join.Keys
import QueryPlan.Proofs.Catalog.Loading
import QueryPlan.Proofs.Session.Queries
import QueryPlan.Proofs.Store.Files
import QueryPlan.Proofs.Report.Batches
import QueryPlan.Proofs.Command.Accounting
import QueryPlan.Proofs.Catalog.Statistics
import QueryPlan.Proofs.Catalog.Storing
import QueryPlan.Proofs.Json.Numbers
import QueryPlan.Proofs.Json.Strings
import QueryPlan.Proofs.Json.RoundTrip
import QueryPlan.Proofs.Number.Shortest
import QueryPlan.Proofs.Store.Writing
import QueryPlan.Proofs.Text.Plain
import QueryPlan.Proofs.Text.Lines
import QueryPlan.Proofs.Text.Digits
import QueryPlan.Proofs.Join.Calls
import QueryPlan.Proofs.Join.Connectivity
import QueryPlan.Proofs.Build.Roots
import QueryPlan.Proofs.Build.Success
import QueryPlan.Proofs.Build.Requirements
import QueryPlan.Proofs.Build.Filing
import QueryPlan.Proofs.Estimate.Merging
import QueryPlan.Proofs.Estimate.Sides
import QueryPlan.Proofs.Number.Quotients
import QueryPlan.Proofs.Estimate.Shares
import QueryPlan.Proofs.Estimate.Remainders
import QueryPlan.Proofs.Estimate.Chains
import QueryPlan.Proofs.Sql.Aliases
import QueryPlan.Proofs.Sql.Conjunctions
import QueryPlan.Proofs.Script.Splitting
import QueryPlan.Proofs.Script.Pieces
import QueryPlan.Proofs.Plan.Ways
import QueryPlan.Proofs.Plan.Rendering
import QueryPlan.Proofs.Relation.Resolving
import QueryPlan.Proofs.Estimate.Footprint
