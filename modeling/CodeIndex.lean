import CodeIndex.Change
import CodeIndex.Command.Arguments
import CodeIndex.Command.Help
import CodeIndex.Command.Run
import CodeIndex.Config
import CodeIndex.Digest.Blake3
import CodeIndex.Digest.Signature
import CodeIndex.Disk.Basic
import CodeIndex.Disk.Write
import CodeIndex.Document.Chunk
import CodeIndex.Graph
import CodeIndex.Index.File
import CodeIndex.Index.Pass
import CodeIndex.Json.Decimal
import CodeIndex.Json.Decode
import CodeIndex.Json.Reader
import CodeIndex.Json.Value
import CodeIndex.Json.Writer
import CodeIndex.Layout
import CodeIndex.Main
import CodeIndex.Path
import CodeIndex.Project.Basic
import CodeIndex.Project.Report
import CodeIndex.Project.Watch
import CodeIndex.Resolve.Candidate
import CodeIndex.Resolve.Plan
import CodeIndex.Search.Expression
import CodeIndex.Search.Rank
import CodeIndex.Selection.Filter
import CodeIndex.Selection.Glob
import CodeIndex.Selection.GlobSet
import CodeIndex.Selection.Walk
import CodeIndex.Session.Detector
import CodeIndex.Session.Observer
import CodeIndex.Session.Tally
import CodeIndex.Session.ToolCall
import CodeIndex.Session.Vocabulary
import CodeIndex.Source.Declaration
import CodeIndex.Source.Extent
import CodeIndex.Source.Language
import CodeIndex.Source.Machine
import CodeIndex.Source.Outline
import CodeIndex.Source.Parse
import CodeIndex.Source.Pattern
import CodeIndex.Source.Reference
import CodeIndex.Source.Symbol
import CodeIndex.Store.Archive
import CodeIndex.Store.Basic
import CodeIndex.Store.Diff
import CodeIndex.Store.Foreign
import CodeIndex.Store.Request
import CodeIndex.Store.Row
import CodeIndex.Store.Search
import CodeIndex.Store.Session
import CodeIndex.Text.Blank
import CodeIndex.Text.Letters
import CodeIndex.Text.Lines
import CodeIndex.Text.Quoted
import CodeIndex.Text.Ranges
import CodeIndex.Text.Search
import CodeIndex.Text.Terms
import CodeIndex.Text.Utf8
import CodeIndex.Tokens
import CodeIndex.Vocabulary
import CodeIndex.Word
import CodeIndex.Proofs.Store.Connection
import CodeIndex.Proofs.Store.Integrity
import CodeIndex.Proofs.Session.Writes
import CodeIndex.Proofs.Session.Memory
import CodeIndex.Proofs.Session.Interleaving
import CodeIndex.Proofs.Index.Page
import CodeIndex.Proofs.Index.Pass
import CodeIndex.Proofs.Session.ChangeLog
import CodeIndex.Proofs.Resolve.Apply
import CodeIndex.Proofs.Project.Run
import CodeIndex.Proofs.Project.ChangeLog
import CodeIndex.Proofs.Selection.Discovery
import CodeIndex.Proofs.Index.Contents
import CodeIndex.Proofs.Project.Incremental
import CodeIndex.Proofs.Session.Entries
import CodeIndex.Proofs.Session.Crowd
import CodeIndex.Proofs.Session.Staleness
import CodeIndex.Proofs.Session.OnceOnly
import CodeIndex.Proofs.Index.Imports
import CodeIndex.Proofs.Project.Watching
import CodeIndex.Proofs.Project.LastWrite
import CodeIndex.Proofs.Index.Accounting
import CodeIndex.Proofs.Project.Repeat
import CodeIndex.Proofs.Project.FullResolve
import CodeIndex.Proofs.Store.Names
import CodeIndex.Proofs.Store.Transaction
import CodeIndex.Proofs.Resolve.Count
import CodeIndex.Proofs.Session.Details
import CodeIndex.Proofs.Session.Growth
import CodeIndex.Proofs.Session.AppendOnly
import CodeIndex.Proofs.Index.Commute
import CodeIndex.Proofs.Selection.Matching
import CodeIndex.Proofs.Selection.Pruning
import CodeIndex.Proofs.Selection.Keys
import CodeIndex.Proofs.Project.Routine
import CodeIndex.Proofs.Project.Batch
import CodeIndex.Proofs.Session.Accesses
import CodeIndex.Proofs.Session.Beginning
import CodeIndex.Proofs.Text.ByteOrder
import CodeIndex.Proofs.Store.Comparison
import CodeIndex.Proofs.Source.Outline
import CodeIndex.Proofs.Index.Frame
import CodeIndex.Proofs.Session.DeadEnds
import CodeIndex.Proofs.Session.Thrashing
import CodeIndex.Proofs.Session.FailedSearches
import CodeIndex.Proofs.Session.Redundancy
import CodeIndex.Proofs.Session.FailingTools
import CodeIndex.Proofs.Project.Hooks
import CodeIndex.Proofs.Project.Observations
import CodeIndex.Proofs.Selection.Spelling
import CodeIndex.Proofs.Project.OneFile
import CodeIndex.Proofs.Document.Chunks
import CodeIndex.Proofs.Document.Fences
import CodeIndex.Proofs.Source.Placement
import CodeIndex.Proofs.Source.Nesting
import CodeIndex.Proofs.Source.Literals
import CodeIndex.Proofs.Source.Comments
import CodeIndex.Proofs.Resolve.Candidates
import CodeIndex.Proofs.Resolve.Packages
import CodeIndex.Proofs.Resolve.Stale
import CodeIndex.Proofs.Text.Words
import CodeIndex.Proofs.Source.Clauses
import CodeIndex.Proofs.Json.RoundTrip
import CodeIndex.Proofs.Text.Decoding
import CodeIndex.Proofs.Disk.Writing
import CodeIndex.Proofs.Disk.Parents
import CodeIndex.Proofs.Disk.Appending
import CodeIndex.Proofs.Disk.Replacing
import CodeIndex.Proofs.Search.Quoting
import CodeIndex.Proofs.Disk.Textual
import CodeIndex.Proofs.Project.Exports
import CodeIndex.Proofs.Session.Rounding
import CodeIndex.Proofs.Session.Tokens
