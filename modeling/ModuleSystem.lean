import ModuleSystem.CommandLine.Arguments
import ModuleSystem.CommandLine.Run
import ModuleSystem.Coverage.Bisection
import ModuleSystem.Coverage.Counts
import ModuleSystem.Coverage.DataDir
import ModuleSystem.Coverage.HitFile
import ModuleSystem.Coverage.Page
import ModuleSystem.Coverage.Report
import ModuleSystem.Coverage.Scope
import ModuleSystem.Coverage.Session
import ModuleSystem.Coverage.Span
import ModuleSystem.Coverage.Summary
import ModuleSystem.Decimal.Shortest
import ModuleSystem.Diagnostic
import ModuleSystem.Fields
import ModuleSystem.FileTree.Basic
import ModuleSystem.FileTree.Edit
import ModuleSystem.FileTree.Filing
import ModuleSystem.FileTree.Path
import ModuleSystem.Form.Basic
import ModuleSystem.Form.Compile
import ModuleSystem.Form.Eval
import ModuleSystem.Json.Basic
import ModuleSystem.Json.Cursor
import ModuleSystem.Json.Document
import ModuleSystem.Json.Ignored
import ModuleSystem.Json.Literal
import ModuleSystem.Json.Path
import ModuleSystem.Json.Printer
import ModuleSystem.Json.Reader
import ModuleSystem.Loading.Body
import ModuleSystem.Loading.Failure
import ModuleSystem.Loading.Loader
import ModuleSystem.Loading.Recorder
import ModuleSystem.Loading.Registry
import ModuleSystem.Loading.Run
import ModuleSystem.Loading.Setup
import ModuleSystem.Loading.Step
import ModuleSystem.Loading.Thread
import ModuleSystem.Loading.TopLevel
import ModuleSystem.Main
import ModuleSystem.Module.Instance
import ModuleSystem.Module.Namespace
import ModuleSystem.ModuleId
import ModuleSystem.Repository.Archive
import ModuleSystem.Repository.Basic
import ModuleSystem.Repository.Bootstrap
import ModuleSystem.Repository.Chain
import ModuleSystem.Repository.Directory
import ModuleSystem.Repository.Resource
import ModuleSystem.Text.Blank
import ModuleSystem.Text.Fnv
import ModuleSystem.Text.Printable
import ModuleSystem.Text.Quoted
import ModuleSystem.Text.Sha256
import ModuleSystem.Text.Utf8
import ModuleSystem.Trie.Basic
import ModuleSystem.Trie.Bulk
import ModuleSystem.Trie.Cursor
import ModuleSystem.Trie.Key
import ModuleSystem.Trie.Node
import ModuleSystem.Trie.Set
import ModuleSystem.Trie.Version
import ModuleSystem.Value
import ModuleSystem.Proofs.Coverage.Counting
import ModuleSystem.Proofs.Coverage.Directory
import ModuleSystem.Proofs.Coverage.Extent
import ModuleSystem.Proofs.Coverage.HitFiles
import ModuleSystem.Proofs.Coverage.Merge
import ModuleSystem.Proofs.Coverage.Pipeline
import ModuleSystem.Proofs.Coverage.Saving
import ModuleSystem.Proofs.Coverage.Sharing
import ModuleSystem.Proofs.Coverage.Sums
import ModuleSystem.Proofs.Coverage.Tables
import ModuleSystem.Proofs.FileTree.Following
import ModuleSystem.Proofs.FileTree.Paths
import ModuleSystem.Proofs.FileTree.Places
import ModuleSystem.Proofs.FileTree.Replacing
import ModuleSystem.Proofs.Form.Size
import ModuleSystem.Proofs.Form.Spans
import ModuleSystem.Proofs.Json.Documents
import ModuleSystem.Proofs.Json.Literals
import ModuleSystem.Proofs.Json.Positions
import ModuleSystem.Proofs.Json.Progress
import ModuleSystem.Proofs.Loading.Acts
import ModuleSystem.Proofs.Loading.Alone
import ModuleSystem.Proofs.Loading.Budget
import ModuleSystem.Proofs.Loading.Cells
import ModuleSystem.Proofs.Loading.Contents
import ModuleSystem.Proofs.Loading.Crew
import ModuleSystem.Proofs.Loading.Cycle
import ModuleSystem.Proofs.Loading.Deadlock
import ModuleSystem.Proofs.Loading.Dependencies
import ModuleSystem.Proofs.Loading.Failures
import ModuleSystem.Proofs.Loading.Once
import ModuleSystem.Proofs.Loading.OrderFree
import ModuleSystem.Proofs.Loading.Recorded
import ModuleSystem.Proofs.Loading.Runtime
import ModuleSystem.Proofs.Loading.Solo
import ModuleSystem.Proofs.Loading.Sound
import ModuleSystem.Proofs.Loading.Stack
import ModuleSystem.Proofs.Loading.Transition
import ModuleSystem.Proofs.Loading.Verdict
import ModuleSystem.Proofs.Loading.Waiting
import ModuleSystem.Proofs.Order
import ModuleSystem.Proofs.Text.Decoding
import ModuleSystem.Proofs.Text.Encoding
import ModuleSystem.Proofs.Trie.FiniteMap
import ModuleSystem.Proofs.Trie.Slots
import ModuleSystem.Proofs.Trie.Traversal
import ModuleSystem.Proofs.Trie.Updates
import ModuleSystem.Proofs.Trie.WellFormed
import ModuleSystem.Proofs.Trie.Reachable
import ModuleSystem.Proofs.Trie.Shape
import ModuleSystem.Proofs.Trie.Checked
import ModuleSystem.Proofs.Trie.Content
import ModuleSystem.Proofs.Loading.CycleMembers
import ModuleSystem.Proofs.Loading.CycleErrors
import ModuleSystem.Proofs.Loading.Moments
import ModuleSystem.Proofs.Loading.Attribution
import ModuleSystem.Proofs.Loading.Nesting
import ModuleSystem.Proofs.Coverage.Parts
import ModuleSystem.Proofs.FileTree.Below
import ModuleSystem.Proofs.Repository.SourceFiles
import ModuleSystem.Proofs.Repository.Backing
import ModuleSystem.Proofs.Loading.Lockstep
import ModuleSystem.Proofs.Loading.SameModules
import ModuleSystem.Proofs.Loading.LongerChains
import ModuleSystem.Proofs.Json.Layouts
import ModuleSystem.Proofs.Json.Cuts
import ModuleSystem.Proofs.FileTree.Removing
import ModuleSystem.Proofs.Coverage.CutShort
import ModuleSystem.Proofs.Fields
import ModuleSystem.Proofs.Json.Values
import ModuleSystem.Proofs.Json.Ordered
import ModuleSystem.Proofs.Value.Interchange
import ModuleSystem.Proofs.Value.FieldMaps
import ModuleSystem.Proofs.Value.Made
import ModuleSystem.Proofs.Json.Locality
import ModuleSystem.Proofs.Json.Extents
import ModuleSystem.Proofs.Json.Places
import ModuleSystem.Proofs.Json.Streams
import ModuleSystem.Proofs.Json.Scanning
import ModuleSystem.Proofs.Form.Composing
import ModuleSystem.Proofs.Form.Grammar
import ModuleSystem.Proofs.Form.Addition
import ModuleSystem.Proofs.Module.Sealing
import ModuleSystem.Proofs.Loading.Pieces
import ModuleSystem.Proofs.Loading.Scripts
import ModuleSystem.Proofs.ModuleId.Segments
import ModuleSystem.Proofs.ModuleId.Nesting
import ModuleSystem.Proofs.ModuleId.Listings
import ModuleSystem.Proofs.Repository.Walking
import ModuleSystem.Proofs.Repository.Offers
import ModuleSystem.Proofs.Coverage.Escaping
import ModuleSystem.Proofs.Coverage.Markup
import ModuleSystem.Proofs.Coverage.Outlines
import ModuleSystem.Proofs.Coverage.Commuting
import ModuleSystem.Proofs.Coverage.Links
import ModuleSystem.Proofs.Loading.OutOfScope
import ModuleSystem.Proofs.Value.FieldLaws
import ModuleSystem.Proofs.Value.Zeros
import ModuleSystem.Proofs.Trie.Lookups
import ModuleSystem.Proofs.Trie.Bulk
import ModuleSystem.Proofs.Trie.Unions
import ModuleSystem.Proofs.Trie.Iterating
import ModuleSystem.Proofs.Value.Contents
