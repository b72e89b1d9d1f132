import FilterQuery.Adapter
import FilterQuery.Batch
import FilterQuery.Cache
import FilterQuery.Command
import FilterQuery.CommandLine
import FilterQuery.Compiler
import FilterQuery.Compiler.Description
import FilterQuery.Compiler.Ledger
import FilterQuery.Compiler.State
import FilterQuery.Condition
import FilterQuery.Config
import FilterQuery.Diagnosis
import FilterQuery.Document.Filter
import FilterQuery.Document.Query
import FilterQuery.Expr
import FilterQuery.Failure
import FilterQuery.Json
import FilterQuery.Json.Reader
import FilterQuery.Json.Tree
import FilterQuery.Literal
import FilterQuery.Location
import FilterQuery.Naming
import FilterQuery.Node
import FilterQuery.Number.Binary64
import FilterQuery.Number.Numeral
import FilterQuery.Number.Shortest
import FilterQuery.OneShot
import FilterQuery.Operator
import FilterQuery.Options
import FilterQuery.Options.Json
import FilterQuery.Outline
import FilterQuery.Part
import FilterQuery.Pattern.Engine
import FilterQuery.Pattern.Property
import FilterQuery.Pattern.Regex
import FilterQuery.Plugin
import FilterQuery.Policy
import FilterQuery.Problem
import FilterQuery.Repair
import FilterQuery.Request
import FilterQuery.Section
import FilterQuery.Sql.Dialect
import FilterQuery.Sql.Explain
import FilterQuery.Sql.Fragment
import FilterQuery.Sql.Statement
import FilterQuery.Text
import FilterQuery.Text.Escaped
import FilterQuery.Text.Letter
import FilterQuery.Text.Quoted
import FilterQuery.Time.Reader
import FilterQuery.Time.Timestamp
import FilterQuery.Token
import FilterQuery.Toml
import FilterQuery.Toml.Reader
import FilterQuery.Value
import FilterQuery.Proofs.Quoted
import FilterQuery.Proofs.Number.Numeral
import FilterQuery.Proofs.Number.Rounding
import FilterQuery.Proofs.Number.Shortest
import FilterQuery.Proofs.Number.Layout
import FilterQuery.Proofs.Time.Calendar
import FilterQuery.Proofs.Time.Timestamp
import FilterQuery.Proofs.Token
import FilterQuery.Proofs.Value
import FilterQuery.Proofs.Literal
import FilterQuery.Proofs.Test
import FilterQuery.Proofs.Inherited
import FilterQuery.Proofs.Condition
import FilterQuery.Proofs.Node
import FilterQuery.Proofs.Outline
import FilterQuery.Proofs.Section
import FilterQuery.Proofs.Preloads
import FilterQuery.Proofs.Joints
import FilterQuery.Proofs.Request
import FilterQuery.Proofs.Balance
import FilterQuery.Proofs.Clause
import FilterQuery.Proofs.Repair
import FilterQuery.Proofs.Typed
import FilterQuery.Proofs.Reading
import FilterQuery.Proofs.Precedence
import FilterQuery.Proofs.Sql.Fragment
import FilterQuery.Main
import FilterQuery.Proofs.Sql.Canonical
import FilterQuery.Proofs.Sql.Arguments
import FilterQuery.Proofs.Sql.Readable
import FilterQuery.Proofs.Sql.Span
import FilterQuery.Proofs.Sql.Alike
import FilterQuery.Proofs.Sql.Placeholders
import FilterQuery.Proofs.Sql.Injection
import FilterQuery.Proofs.Adding
import FilterQuery.Proofs.Leaves
import FilterQuery.Proofs.Words
import FilterQuery.Proofs.Naming
import FilterQuery.Proofs.Policy.Resolve
import FilterQuery.Proofs.Policy.Soundness
import FilterQuery.Proofs.Policy.Respelling
import FilterQuery.Proofs.Sql.Columns
import FilterQuery.Proofs.Document.Columns
import FilterQuery.Proofs.Sql.Order
import FilterQuery.Proofs.Document.Order
import FilterQuery.Proofs.Policy.Selection
import FilterQuery.Proofs.Policy.Nested
import FilterQuery.Proofs.Nesting
import FilterQuery.Proofs.Enclosed
import FilterQuery.Proofs.Merging
import FilterQuery.Proofs.Composition
import FilterQuery.Proofs.Keywords
import FilterQuery.Proofs.Grammar
import FilterQuery.Proofs.Dropping
import FilterQuery.Proofs.Cache
import FilterQuery.Proofs.Compiler.Ledger
import FilterQuery.Proofs.Compiler.Steps
import FilterQuery.Proofs.Compiler.Reading
import FilterQuery.Proofs.Compiler.Session
import FilterQuery.Proofs.Compiler.Uncached
import FilterQuery.Proofs.Compiler.Lasting
import FilterQuery.Proofs.Compiler.Coherence
import FilterQuery.Proofs.WellFormed
import FilterQuery.Proofs.Compiler.Counting
import FilterQuery.Proofs.Compiler.Contract
import FilterQuery.Proofs.Compiler.Metrics
import FilterQuery.Proofs.Compiler.Work
import FilterQuery.Proofs.Compiler.Batch
import FilterQuery.Proofs.Document.Meaning
import FilterQuery.Proofs.Document.Wildcards
import FilterQuery.Proofs.Sql.Joins
import FilterQuery.Proofs.Preloading
import FilterQuery.Proofs.Sorting
import FilterQuery.Proofs.Sql.Explained
import FilterQuery.Proofs.Spacing
import FilterQuery.Proofs.Layout
import FilterQuery.Proofs.Validity
import FilterQuery.Proofs.Bytes
import FilterQuery.Proofs.Extents
import FilterQuery.Proofs.QuotedSpan
import FilterQuery.Proofs.LoadBlock
import FilterQuery.Proofs.Pruning
import FilterQuery.Proofs.Distinct
import FilterQuery.Proofs.Policy.Relations
import FilterQuery.Proofs.Renaming
import FilterQuery.Proofs.Policy.Final
import FilterQuery.Proofs.Policy.Qualified
import FilterQuery.Proofs.Symbols
import FilterQuery.Proofs.WordBreaks
import FilterQuery.Proofs.Location
