import SparqlBind.Text.CharClass
import SparqlBind.Text.CaseMap
import SparqlBind.Sparql.Equality
import SparqlBind.Number.Shortest
import SparqlBind.Binding
import SparqlBind.Text.Json
import SparqlBind.Error
import SparqlBind.Sparql.Reader
import SparqlBind.Sparql.TripleReader
import SparqlBind.Sparql.QueryReader
import SparqlBind.Namespaces
import SparqlBind.Extension.Outcome
import SparqlBind.Extension.ScalarFunction
import SparqlBind.Xsd.Timestamp
import SparqlBind.Evaluation.Arithmetic
import SparqlBind.Text.Regex.Reader
import SparqlBind.Text.Digest
import SparqlBind.Evaluation.Functions
import SparqlBind.Evaluation.Path
import SparqlBind.Evaluation.Simplify
import SparqlBind.Evaluation.Rows
import SparqlBind.Evaluation.Engine
import SparqlBind.Endpoint
import SparqlBind.Http.Server
import SparqlBind.Startup
import SparqlBind.Archive.Gzip
import SparqlBind.Rdf.Loading
import SparqlBind.CommandLine.Seconds
import SparqlBind.CommandLine.Program
import SparqlBind.Main
import SparqlBind.Proofs.Ends
import SparqlBind.Proofs.Pattern
import SparqlBind.Proofs.Inlining.Steps
import SparqlBind.Proofs.Scalars
import SparqlBind.Proofs.Binding
import SparqlBind.Proofs.Inlining.Shape
import SparqlBind.Proofs.Semantics.Mapping
import SparqlBind.Proofs.Inlining.Tables
import SparqlBind.Proofs.Inlining.Columns
import SparqlBind.Proofs.Semantics.Bag
import SparqlBind.Proofs.Semantics.Variables
import SparqlBind.Proofs.Semantics.Basic
import SparqlBind.Proofs.Semantics.Reference
import SparqlBind.Proofs.Semantics.Places
import SparqlBind.Proofs.Semantics.Presentation
import SparqlBind.Proofs.Semantics.Engine
import SparqlBind.Proofs.Inlining.Memory
import SparqlBind.Proofs.Inlining.Questions
import SparqlBind.Proofs.Inlining.Calls
import SparqlBind.Proofs.Inlining.Simulation
import SparqlBind.Proofs.Inlining.Meaning
import SparqlBind.Proofs.Inlining.Graphs
import SparqlBind.Proofs.Semantics.Standard
import SparqlBind.Proofs.Inlining.Invariants
import SparqlBind.Proofs.Inlining.Functions
import SparqlBind.Proofs.Semantics.NamedRows
import SparqlBind.Proofs.Semantics.Origins
import SparqlBind.Proofs.Inlining.Origins
import SparqlBind.Proofs.Inlining.GraphNames
import SparqlBind.Proofs.Inlining.Difference
import SparqlBind.Proofs.Semantics.Existence
import SparqlBind.Proofs.Inlining.Existence
import SparqlBind.Proofs.Semantics.Modifiers
import SparqlBind.Proofs.Semantics.Separation
import SparqlBind.Proofs.Inlining.Modifiers
import SparqlBind.Proofs.Inlining.Strictness
import SparqlBind.Proofs.Semantics.Strictness
import SparqlBind.Proofs.Inlining.Answers
import SparqlBind.Proofs.Inlining.Descriptions
import SparqlBind.Proofs.Inlining.Constructions
import SparqlBind.Proofs.Semantics.Provenance
import SparqlBind.Proofs.Semantics.Disclosure
import SparqlBind.Proofs.Semantics.Discretion
import SparqlBind.Proofs.Semantics.Forgetting
import SparqlBind.Proofs.Inlining.Insertion
import SparqlBind.Proofs.Semantics.Values
import SparqlBind.Proofs.Semantics.Rows
import SparqlBind.Proofs.Semantics.Matching
import SparqlBind.Proofs.Inlining.Presented
import SparqlBind.Proofs.Inlining.Discretion
import SparqlBind.Proofs.Renaming.Query
import SparqlBind.Proofs.Renaming.Table
import SparqlBind.Proofs.Inlining.Comparison
import SparqlBind.Proofs.Inlining.Lockstep
import SparqlBind.Proofs.Inlining.Interactions
import SparqlBind.Proofs.Inlining.Deadlines
import SparqlBind.Proofs.Inlining.Datasets
import SparqlBind.Proofs.Inlining.Names
import SparqlBind.Proofs.Inlining.BuiltIns
import SparqlBind.Proofs.Inlining.Rowwise
import SparqlBind.Proofs.Inlining.Checks
import SparqlBind.Proofs.Inlining.ScalarRows
import SparqlBind.Proofs.Inlining.OptionalRows
import SparqlBind.Proofs.Inlining.Headers
import SparqlBind.Proofs.Endpoint.Stages
import SparqlBind.Proofs.Endpoint.Refusals
import SparqlBind.Proofs.Endpoint.Labels
import SparqlBind.Proofs.Http.FormData
import SparqlBind.Proofs.Http.Queries
import SparqlBind.Proofs.Http.Bodies
import SparqlBind.Proofs.Semantics.JoinLaws
import SparqlBind.Proofs.Inlining.JoinLaws
import SparqlBind.Proofs.Semantics.Operators
import SparqlBind.Proofs.Inlining.Stepwise
import SparqlBind.Proofs.Http.ConsolePage
import SparqlBind.Proofs.Endpoint.Declarations
import SparqlBind.Proofs.Endpoint.Kinds
import SparqlBind.Proofs.Endpoint.Timeouts
import SparqlBind.Proofs.Registry
import SparqlBind.Proofs.Binding.History
import SparqlBind.Proofs.Text.Patterns
import SparqlBind.Proofs.Text.Json
import SparqlBind.Proofs.Text.BrokenTags
import SparqlBind.Proofs.Http.Escaping
import SparqlBind.Proofs.Http.ScriptValue
