import Storyline.BuildCache
import Storyline.Command.Build
import Storyline.Command.Check
import Storyline.Command.Flag
import Storyline.Command.Fuzzy
import Storyline.Command.Line
import Storyline.Command.Listing
import Storyline.Command.Number
import Storyline.Command.Project
import Storyline.Command.Run
import Storyline.Command.Serve
import Storyline.Command.Start
import Storyline.Command.State
import Storyline.Diagnostic.Bag
import Storyline.Diagnostic.Basic
import Storyline.Diagnostic.Code
import Storyline.Diagnostic.Printer
import Storyline.Diagnostic.Record
import Storyline.Diagnostic.Repair
import Storyline.Digest
import Storyline.Export.Compile
import Storyline.Export.Datum
import Storyline.Export.Msgpack
import Storyline.Export.Program
import Storyline.Json.Basic
import Storyline.Json.Fault
import Storyline.Json.Reader
import Storyline.Json.Writer
import Storyline.Main
import Storyline.Manifest.Basic
import Storyline.Manifest.Reader
import Storyline.Markup.Block
import Storyline.Markup.Block.Tree
import Storyline.Markup.Bracket
import Storyline.Markup.Parser
import Storyline.Markup.Parser.Attribute
import Storyline.Markup.Parser.Inline
import Storyline.Markup.Parser.State
import Storyline.Markup.Spans
import Storyline.Markup.Token
import Storyline.Markup.Walk
import Storyline.Outline.Basic
import Storyline.Outline.Resolve
import Storyline.Proofs.Diagnostic.Bounds
import Storyline.Proofs.Diagnostic.Edits
import Storyline.Proofs.Diagnostic.Plans
import Storyline.Proofs.Export.ChildPaths
import Storyline.Proofs.Export.Shown
import Storyline.Proofs.Export.TemplateLiteral
import Storyline.Proofs.Markup.Addresses
import Storyline.Proofs.Markup.Agreement
import Storyline.Proofs.Markup.AttributeRuns
import Storyline.Proofs.Markup.Attributes
import Storyline.Proofs.Markup.Diverts
import Storyline.Proofs.Markup.Enclosure
import Storyline.Proofs.Markup.Extents
import Storyline.Proofs.Markup.HeaderOrder
import Storyline.Proofs.Markup.Indentation
import Storyline.Proofs.Markup.Layouts
import Storyline.Proofs.Markup.Lifted
import Storyline.Proofs.Markup.LineEndings
import Storyline.Proofs.Markup.LineEnds
import Storyline.Proofs.Markup.LineStarts
import Storyline.Proofs.Markup.Nesting
import Storyline.Proofs.Markup.OneLine
import Storyline.Proofs.Markup.OpenEnds
import Storyline.Proofs.Markup.Outcomes
import Storyline.Proofs.Markup.ParameterLists
import Storyline.Proofs.Markup.PlainLines
import Storyline.Proofs.Markup.Progress
import Storyline.Proofs.Markup.Remaining
import Storyline.Proofs.Markup.Reports
import Storyline.Proofs.Markup.Resets
import Storyline.Proofs.Markup.Running
import Storyline.Proofs.Markup.ScriptSpans
import Storyline.Proofs.Markup.Sources
import Storyline.Proofs.Markup.Termination
import Storyline.Proofs.Markup.Texts
import Storyline.Proofs.Markup.TwoRuns
import Storyline.Proofs.Markup.Unbounded
import Storyline.Proofs.Outline.Headers
import Storyline.Proofs.Outline.Names
import Storyline.Proofs.Outline.Resolution
import Storyline.Proofs.Outline.Sections
import Storyline.Proofs.Outline.Suggestions
import Storyline.Proofs.Outline.Ways
import Storyline.Proofs.Rpc.Frames
import Storyline.Proofs.Rpc.Replies
import Storyline.Proofs.Rpc.SessionIds
import Storyline.Proofs.Script.Balance
import Storyline.Proofs.Script.Completeness
import Storyline.Proofs.Script.Composition
import Storyline.Proofs.Script.Coverage
import Storyline.Proofs.Script.Grammar
import Storyline.Proofs.Script.Leaves
import Storyline.Proofs.Script.Lexing
import Storyline.Proofs.Script.Numbers
import Storyline.Proofs.Script.Numerals
import Storyline.Proofs.Script.Places
import Storyline.Proofs.Script.Precedence
import Storyline.Proofs.Script.Printing
import Storyline.Proofs.Script.Reading
import Storyline.Proofs.Script.Relocation
import Storyline.Proofs.Script.RoundTrip
import Storyline.Proofs.Script.Separation
import Storyline.Proofs.Script.Soundness
import Storyline.Proofs.Script.Spans
import Storyline.Proofs.Script.Standing
import Storyline.Proofs.Script.Strings
import Storyline.Proofs.Script.Templates
import Storyline.Proofs.Script.Termination
import Storyline.Proofs.Script.Tokens
import Storyline.Proofs.Script.Unbounded
import Storyline.Proofs.Session.Arena
import Storyline.Proofs.Session.Blobs
import Storyline.Proofs.Session.Calls
import Storyline.Proofs.Session.Contents
import Storyline.Proofs.Session.Edits
import Storyline.Proofs.Session.Fingerprints
import Storyline.Proofs.Session.Forest
import Storyline.Proofs.Session.Mirror
import Storyline.Proofs.Session.Provenance
import Storyline.Proofs.Session.Recompile
import Storyline.Proofs.Session.Reports
import Storyline.Proofs.Session.Sources
import Storyline.Proofs.Session.Upkeep
import Storyline.Proofs.Session.Walk
import Storyline.Proofs.Source.Bounds
import Storyline.Proofs.Source.Positions
import Storyline.Proofs.Storage.Effects
import Storyline.Proofs.Storage.Entries
import Storyline.Proofs.Storage.Places
import Storyline.Proofs.Storage.Reachable
import Storyline.Proofs.Text.Ascii
import Storyline.Proofs.Text.Lists
import Storyline.Proofs.Trace.Rings
import Storyline.Proofs.Unbounded
import Storyline.Proofs.Variables.Arena
import Storyline.Proofs.Variables.Changes
import Storyline.Proofs.Variables.ComputedKeys
import Storyline.Proofs.Variables.Ledger
import Storyline.Proofs.Variables.Leftovers
import Storyline.Proofs.Variables.Origins
import Storyline.Proofs.Variables.Paths
import Storyline.Proofs.Variables.Reading
import Storyline.Proofs.Variables.Reordering
import Storyline.Proofs.Variables.Replay
import Storyline.Proofs.Variables.Representation
import Storyline.Proofs.Variables.Snapshots
import Storyline.Proofs.Variables.Table
import Storyline.Proofs.Variables.Targets
import Storyline.Proofs.Variables.Trails
import Storyline.Proofs.Variables.Writes
import Storyline.Release
import Storyline.Rpc.Frame
import Storyline.Rpc.Message
import Storyline.Rpc.Server
import Storyline.Rpc.SessionId
import Storyline.Script.Expr
import Storyline.Script.Expr.Printer
import Storyline.Script.Expr.Tree
import Storyline.Script.Literal
import Storyline.Script.Parser
import Storyline.Script.Token
import Storyline.Script.Token.Lexer
import Storyline.Session.Basic
import Storyline.Session.Compile
import Storyline.Session.Edit
import Storyline.Session.Listing
import Storyline.Session.Open
import Storyline.Session.Story
import Storyline.Source.Cursor
import Storyline.Source.File
import Storyline.Source.Span
import Storyline.Storage.Basic
import Storyline.Storage.Disk
import Storyline.Storage.Error
import Storyline.Storage.Location
import Storyline.Text.Bytes
import Storyline.Text.Case
import Storyline.Text.Glyph
import Storyline.Text.Letter
import Storyline.Text.Path
import Storyline.Text.Quoted
import Storyline.Text.Title
import Storyline.Text.Width
import Storyline.Text.Word
import Storyline.Timing
import Storyline.Toml.Document
import Storyline.Toml.Error
import Storyline.Toml.Number
import Storyline.Toml.Parser
import Storyline.Toml.Value
import Storyline.Trace.Event
import Storyline.Trace.Tracer
import Storyline.Variables.Fold
import Storyline.Variables.Record
import Storyline.Variables.Snapshot
import Storyline.Variables.Store
