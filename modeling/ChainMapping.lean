import ChainMapping.Batch.Basic
import ChainMapping.Batch.Discovery
import ChainMapping.Chain.Basic
import ChainMapping.Chain.Error
import ChainMapping.Chain.Normal
import ChainMapping.Chain.Notation
import ChainMapping.Chain.Tokenize
import ChainMapping.Code
import ChainMapping.Comparison
import ChainMapping.Decimal.Reading
import ChainMapping.Decimal.Scaling
import ChainMapping.Decimal.Shortest
import ChainMapping.Document.Basic
import ChainMapping.Document.Record
import ChainMapping.Elapsed
import ChainMapping.Execution
import ChainMapping.Files.Path
import ChainMapping.Files.Tree
import ChainMapping.Index.Chain
import ChainMapping.Index.Error
import ChainMapping.Index.Node
import ChainMapping.Index.Object
import ChainMapping.Inspect.Diagnosis
import ChainMapping.Inspect.Kind
import ChainMapping.Inspect.Log
import ChainMapping.Inspect.Mapping
import ChainMapping.Inspect.Tree
import ChainMapping.Inspect.Value
import ChainMapping.Introspector
import ChainMapping.Json.Reader
import ChainMapping.Json.Writer
import ChainMapping.Limits
import ChainMapping.Log.Collector
import ChainMapping.Log.Event
import ChainMapping.Log.Journal
import ChainMapping.Log.Level
import ChainMapping.Log.Memory
import ChainMapping.Main
import ChainMapping.Mapping.Basic
import ChainMapping.Mapping.Compile
import ChainMapping.Mapping.Report
import ChainMapping.Mapping.Written
import ChainMapping.Moment
import ChainMapping.Naming
import ChainMapping.Ordered
import ChainMapping.Program.Arguments
import ChainMapping.Program.Compiling
import ChainMapping.Program.Console
import ChainMapping.Program.Indexing
import ChainMapping.Proofs.Batch.Agreement
import ChainMapping.Proofs.Batch.Discovery
import ChainMapping.Proofs.Batch.Outcomes
import ChainMapping.Proofs.Chain.Anchors
import ChainMapping.Proofs.Chain.Faults
import ChainMapping.Proofs.Chain.Form
import ChainMapping.Proofs.Chain.Grammar
import ChainMapping.Proofs.Chain.Nesting
import ChainMapping.Proofs.Chain.NormalForm
import ChainMapping.Proofs.Chain.Prefix
import ChainMapping.Proofs.Chain.Reading
import ChainMapping.Proofs.Chain.Sanitized
import ChainMapping.Proofs.Chain.Segments
import ChainMapping.Proofs.Chain.Spans
import ChainMapping.Proofs.Chain.Textual
import ChainMapping.Proofs.Chain.Tokens
import ChainMapping.Proofs.Chain.Unbalanced
import ChainMapping.Proofs.Cursor.Safety
import ChainMapping.Proofs.Cursor.Sizes
import ChainMapping.Proofs.Cursor.Walk
import ChainMapping.Proofs.Document.Sorting
import ChainMapping.Proofs.Ending
import ChainMapping.Proofs.Files.Traversal
import ChainMapping.Proofs.Index.Agreement
import ChainMapping.Proofs.Index.Counting
import ChainMapping.Proofs.Index.Cycles
import ChainMapping.Proofs.Index.Declared
import ChainMapping.Proofs.Index.Depth
import ChainMapping.Proofs.Index.Filling
import ChainMapping.Proofs.Index.Graft
import ChainMapping.Proofs.Index.Levels
import ChainMapping.Proofs.Index.Order
import ChainMapping.Proofs.Index.Pass
import ChainMapping.Proofs.Index.Soundness
import ChainMapping.Proofs.Index.Typing
import ChainMapping.Proofs.Index.Union
import ChainMapping.Proofs.Index.Walk
import ChainMapping.Proofs.Log.Buckets
import ChainMapping.Proofs.Log.Turns
import ChainMapping.Proofs.Mapping.Compiled
import ChainMapping.Proofs.Mapping.Drafts
import ChainMapping.Proofs.Mapping.Origins
import ChainMapping.Proofs.Mapping.Reporting
import ChainMapping.Proofs.Naming
import ChainMapping.Proofs.Ordered
import ChainMapping.Proofs.Registry.Names
import ChainMapping.Proofs.Registry.Registrations
import ChainMapping.Proofs.Registry.Rehydration
import ChainMapping.Proofs.Registry.Roots
import ChainMapping.Proofs.Registry.Uniqueness
import ChainMapping.Proofs.Schema.Closed
import ChainMapping.Proofs.Schema.Loading
import ChainMapping.Proofs.Schema.Names
import ChainMapping.Proofs.Text.Characters
import ChainMapping.Proofs.Text.Separator
import ChainMapping.Proofs.Text.Trimming
import ChainMapping.Proofs.Tree.Draft
import ChainMapping.Proofs.Tree.Fields
import ChainMapping.Proofs.Tree.Footprint
import ChainMapping.Proofs.Tree.Founded
import ChainMapping.Proofs.Tree.Hints
import ChainMapping.Proofs.Tree.Histories
import ChainMapping.Proofs.Tree.Insertion
import ChainMapping.Proofs.Tree.Lookup
import ChainMapping.Proofs.Tree.Making
import ChainMapping.Proofs.Tree.NormalPaths
import ChainMapping.Proofs.Tree.Paths
import ChainMapping.Proofs.Tree.Portrait
import ChainMapping.Proofs.Tree.Representation
import ChainMapping.Proofs.Tree.Resolution
import ChainMapping.Proofs.Tree.Rollback
import ChainMapping.Proofs.Tree.Stability
import ChainMapping.Proofs.Tree.Transparency
import ChainMapping.Proofs.Tree.WellFormed
import ChainMapping.Proofs.Types.Display
import ChainMapping.Proofs.Types.Expression
import ChainMapping.Proofs.Types.Grammar
import ChainMapping.Proofs.Value.Conforming
import ChainMapping.Proofs.Value.Faithful
import ChainMapping.Proofs.Value.Keys
import ChainMapping.Proofs.Value.Making
import ChainMapping.Proofs.Value.Places
import ChainMapping.Registry.Basic
import ChainMapping.Registry.Deployment
import ChainMapping.Registry.Error
import ChainMapping.Schema.Basic
import ChainMapping.Schema.Load
import ChainMapping.Schema.Reader
import ChainMapping.Script
import ChainMapping.ScriptFile.Compile
import ChainMapping.ScriptFile.Error
import ChainMapping.Settings
import ChainMapping.Span
import ChainMapping.Text.Blank
import ChainMapping.Text.Bytes
import ChainMapping.Text.Capital
import ChainMapping.Text.Escaped
import ChainMapping.Text.Search
import ChainMapping.Toml.Reader
import ChainMapping.Toml.Scalar
import ChainMapping.Toml.Section
import ChainMapping.Toml.Stamp
import ChainMapping.Toml.Writer
import ChainMapping.Tree.Basic
import ChainMapping.Tree.Cursor
import ChainMapping.Tree.Error
import ChainMapping.Tree.Log
import ChainMapping.Tree.Node
import ChainMapping.Tree.Resolve
import ChainMapping.Types.Basic
import ChainMapping.Types.Error
import ChainMapping.Types.Expression
import ChainMapping.Value.Basic
import ChainMapping.Value.Conversion
import ChainMapping.Value.Reading
import ChainMapping.Word
