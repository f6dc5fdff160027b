import ChainExtract.Abi.Encoding
import ChainExtract.Chain.Script
import ChainExtract.Node.Recording
import ChainExtract.Plan.Document
import ChainExtract.Plan.Prepare
import ChainExtract.Proofs.Journal
import ChainExtract.Proofs.Numerals
import ChainExtract.Proofs.Maintains
import ChainExtract.Proofs.Ensures
import ChainExtract.Proofs.Failures
import ChainExtract.Proofs.Evaluation
import ChainExtract.Proofs.Grouping
import ChainExtract.Proofs.Resolution
import ChainExtract.Proofs.Dispatch
import ChainExtract.Proofs.Upholding
import ChainExtract.Proofs.BlockRange.Entries
import ChainExtract.Proofs.BlockRange.Journaling
import ChainExtract.Proofs.BlockRange.Alignment
import ChainExtract.Proofs.BlockRange.FinalView
import ChainExtract.Proofs.BlockRange.Withdrawal
import ChainExtract.Proofs.BlockRange.Retrieval
import ChainExtract.Proofs.BlockRange.Omissions
import ChainExtract.Proofs.BlockRange.Bounds
import ChainExtract.Proofs.BlockRange.Convergence
import ChainExtract.Proofs.BlockRange.Eviction
import ChainExtract.Proofs.Export.Files
import ChainExtract.Proofs.Export.Artifacts
import ChainExtract.Proofs.Export.Streaming
import ChainExtract.Proofs.Export.Tables
import ChainExtract.Proofs.Export.Markup
import ChainExtract.Proofs.Export.EventLogs
import ChainExtract.Proofs.Export.Places
import ChainExtract.Proofs.Scoping.Interpreter
import ChainExtract.Proofs.Scoping.StorageNames
import ChainExtract.Proofs.Scoping.Visible
import ChainExtract.Proofs.Scoping.Filters
import ChainExtract.Proofs.Scoping.Operands
import ChainExtract.Proofs.Scoping.LogEntries
import ChainExtract.Proofs.Scoping.Contracts
import ChainExtract.Proofs.Scoping.Compilation
import ChainExtract.Proofs.Scoping.Declarations
import ChainExtract.Proofs.Scoping.Uniqueness
import ChainExtract.Proofs.Typing.Conformance
import ChainExtract.Proofs.Typing.Decoding
import ChainExtract.Proofs.Typing.Frames
import ChainExtract.Proofs.Typing.Points
import ChainExtract.Proofs.Typing.Adequacy
import ChainExtract.Proofs.Typing.Bodies
import ChainExtract.Proofs.Typing.Uses
import ChainExtract.Proofs.Typing.Soundness
import ChainExtract.Proofs.Typing.Calls
import ChainExtract.Proofs.Typing.Constants
import ChainExtract.Proofs.Cursor.Placement
import ChainExtract.Proofs.Cursor.Restoration
import ChainExtract.Proofs.Cursor.Items
import ChainExtract.Proofs.Cursor.Validity
import ChainExtract.Proofs.Definite.Reads
import ChainExtract.Proofs.Definite.Operands
import ChainExtract.Proofs.Definite.Bodies
import ChainExtract.Proofs.Definite.Openings
import ChainExtract.Proofs.Definite.Programs
import ChainExtract.Proofs.Definite.Arrivals
import ChainExtract.Proofs.Reporting.Tracing
import ChainExtract.Proofs.Reporting.Halting
import ChainExtract.Proofs.Reporting.Filters
import ChainExtract.Proofs.Reporting.Programs
import ChainExtract.Proofs.Reporting.Throughout
import ChainExtract.Proofs.Export.Batch
import ChainExtract.Proofs.Utf8
import ChainExtract.Proofs.Abi.Integers
import ChainExtract.Proofs.Abi.Values
import ChainExtract.Proofs.Abi.Conversion
import ChainExtract.Proofs.Abi.Acceptance
import ChainExtract.Proofs.Abi.Inference
import ChainExtract.Proofs.Abi.Layout
import ChainExtract.Proofs.Abi.Recovery
import ChainExtract.Proofs.Abi.Events
import ChainExtract.Proofs.Passes.Matching
import ChainExtract.Proofs.Passes.Completion
import ChainExtract.Proofs.Passes.Nesting
import ChainExtract.Proofs.Injection.Sparing
import ChainExtract.Proofs.Injection.Freshness
import ChainExtract.Proofs.Injection.Filters
import ChainExtract.Proofs.Documents.Texts
import ChainExtract.Proofs.Documents.Trees
import ChainExtract.Proofs.Documents.Fields
import ChainExtract.Proofs.Documents.Kinds
import ChainExtract.Proofs.Documents.Strictness
import ChainExtract.Proofs.Node.Joining
import ChainExtract.Proofs.Node.Listings
import ChainExtract.Proofs.Export.Independence
import ChainExtract.Proofs.Export.Xml.Documents
import ChainExtract.Proofs.Export.Xml.Printing
import ChainExtract.Proofs.Export.Xml.Reading
import ChainExtract.Proofs.Export.Xml.Logs
import ChainExtract.Proofs.Export.Xml.Texts
import ChainExtract.Proofs.StandardLibrary
