import EditorSession.Analysis.Absent
import EditorSession.Analysis.Query
import EditorSession.Analysis.Symbol
import EditorSession.Bytes
import EditorSession.Channel.Descriptor
import EditorSession.Channel.Duplex
import EditorSession.Diagnostics.Options
import EditorSession.Diagnostics.Pipeline
import EditorSession.Dispatch.Dispatcher
import EditorSession.Dispatch.Incoming
import EditorSession.Dispatch.Service
import EditorSession.Document.Operation
import EditorSession.Document.Store
import EditorSession.Environment
import EditorSession.Feature
import EditorSession.FileTree
import EditorSession.Frame.Codec
import EditorSession.Frame.Stream
import EditorSession.Json.Parser
import EditorSession.Json.Printer
import EditorSession.Json.Value
import EditorSession.Log
import EditorSession.Lsp.Basic
import EditorSession.Lsp.Handshake
import EditorSession.Lsp.Params
import EditorSession.Main
import EditorSession.Number.Binary64
import EditorSession.Number.Shortest
import EditorSession.Proofs.Dispatch.Run
import EditorSession.Proofs.Numeral
import EditorSession.Proofs.Rpc.Key
import EditorSession.Proofs.Table
import EditorSession.Rehearsal.Desk
import EditorSession.Rehearsal.Engine
import EditorSession.Rehearsal.Exchange
import EditorSession.Rehearsal.Model
import EditorSession.Rehearsal.Sitting
import EditorSession.Rehearsal.Trace
import EditorSession.Rpc.Error
import EditorSession.Rpc.Id
import EditorSession.Rpc.Message
import EditorSession.Rpc.Report
import EditorSession.Rpc.Slot
import EditorSession.Session.Lifecycle
import EditorSession.Session.Server
import EditorSession.Settings.CommandLine
import EditorSession.Settings.Load
import EditorSession.Settings.Release
import EditorSession.Settings.Words
import EditorSession.Table
import EditorSession.Text.Edit
import EditorSession.Text.Place
import EditorSession.Text.Utf8
import EditorSession.Workspace
import EditorSession.Proofs.Dispatch.Bookkeeping
import EditorSession.Proofs.Dispatch.Course
import EditorSession.Proofs.Dispatch.Answers
import EditorSession.Proofs.Dispatch.Cancellation
import EditorSession.Proofs.Text.CodeUnits
import EditorSession.Proofs.Text.Places
import EditorSession.Proofs.Text.Edits
import EditorSession.Proofs.Document.Step
import EditorSession.Proofs.Document.Table
import EditorSession.Proofs.Document.Run
import EditorSession.Proofs.Document.Handles
import EditorSession.Proofs.Diagnostics.Work
import EditorSession.Proofs.Diagnostics.Run
import EditorSession.Proofs.Diagnostics.Lateness
import EditorSession.Proofs.Frame.Decoding
import EditorSession.Proofs.Frame.Reassembly
import EditorSession.Proofs.Json.Grammar
import EditorSession.Proofs.Json.Reading
import EditorSession.Proofs.Json.Strings
import EditorSession.Proofs.Json.Numbers
import EditorSession.Proofs.Json.Containers
import EditorSession.Proofs.Json.Documents
import EditorSession.Proofs.Json.RoundTrip
import EditorSession.Proofs.Diagnostics.Exclusive
import EditorSession.Proofs.Document.Updates
import EditorSession.Proofs.Document.Revisions
import EditorSession.Proofs.Diagnostics.Upkeep
import EditorSession.Proofs.Workspace.Rest
import EditorSession.Proofs.Dispatch.Notifications
import EditorSession.Proofs.Document.Spelling
import EditorSession.Proofs.Workspace.Clearance
import EditorSession.Proofs.Session.Exit
import EditorSession.Proofs.Session.Lifecycle
import EditorSession.Proofs.Rpc.Messages
import EditorSession.Proofs.Channel.Delivery
import EditorSession.Proofs.Frame.WellFormed
import EditorSession.Proofs.Frame.Finality
import EditorSession.Proofs.Settings.Arguments
import EditorSession.Proofs.Settings.Overlay
import EditorSession.Proofs.Rpc.Refilling
import EditorSession.Proofs.Dispatch.Insertion
import EditorSession.Proofs.Text.Inverse
import EditorSession.Proofs.Text.ByteLines
import EditorSession.Proofs.Diagnostics.Debounce
import EditorSession.Proofs.Diagnostics.Expiry
import EditorSession.Proofs.Diagnostics.Provenance
import EditorSession.Proofs.Document.Reassociation
import EditorSession.Proofs.Document.Respelling
import EditorSession.Proofs.Document.Listeners
import EditorSession.Proofs.Document.Nesting
import EditorSession.Proofs.Analysis.Renames
import EditorSession.Proofs.Json.Escapes
import EditorSession.Proofs.Analysis.Degradation
import EditorSession.Proofs.Session.Features
import EditorSession.Proofs.Analysis.Outline
import EditorSession.Proofs.Lsp.Changes
import EditorSession.Proofs.Lsp.Roots
import EditorSession.Proofs.Settings.Joining
