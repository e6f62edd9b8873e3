import Trampoline.Text.Blank
import Trampoline.Text.Width
import Trampoline.Text.Line
import Trampoline.Text.BreakClass
import Trampoline.Text.Cluster
import Trampoline.Text.Backspace
import Trampoline.Numeral
import Trampoline.Decimal.Rounding
import Trampoline.Decimal.Binary
import Trampoline.Decimal.Fixed
import Trampoline.Decimal.Literal
import Trampoline.Digest
import Trampoline.Message
import Trampoline.CommandError
import Trampoline.Fault
import Trampoline.Value.Basic
import Trampoline.Value.Printer
import Trampoline.Value.Bytes
import Trampoline.Cursor
import Trampoline.Compound
import Trampoline.Template
import Trampoline.NameMap
import Trampoline.Callback
import Trampoline.Depth
import Trampoline.Machine.Frame
import Trampoline.Machine.Work
import Trampoline.Machine.Backlog
import Trampoline.Deque
import Trampoline.Machine.State
import Trampoline.Machine.Run
import Trampoline.Machine.Fanout
import Trampoline.Trace.Event
import Trampoline.Journal
import Trampoline.Chain
import Trampoline.Dialect
import Trampoline.Text.Split
import Trampoline.Command.Vocabulary
import Trampoline.Command.Grammar
import Trampoline.Function.Basic
import Trampoline.Function.Compile
import Trampoline.Host
import Trampoline.Command.Meaning
import Trampoline.Submission
import Trampoline.Script
import Trampoline.Probe
import Trampoline.Json.Basic
import Trampoline.Json.Printer
import Trampoline.Json.Reader
import Trampoline.Trace.Record
import Trampoline.Trace.Buffer
import Trampoline.Trace.Line
import Trampoline.Trace.Recorder
import Trampoline.Profile
import Trampoline.Files.Path
import Trampoline.Files.Tree
import Trampoline.Loading
import Trampoline.Settings
import Trampoline.Session
import Trampoline.Directive
import Trampoline.Continuation
import Trampoline.Draft
import Trampoline.Prompt
import Trampoline.CommandLine
import Trampoline.Main
import Trampoline.Proofs.Machine.Exec
import Trampoline.Proofs.Machine.History
import Trampoline.Proofs.Machine.Sequence
import Trampoline.Proofs.Command.Upshot
import Trampoline.Proofs.Command.Interpreter
import Trampoline.Proofs.Command.Stages
import Trampoline.Proofs.Command.Bounds
import Trampoline.Proofs.Command.Budget
import Trampoline.Proofs.Command.Growth
import Trampoline.Proofs.Command.Ceiling
import Trampoline.Proofs.Machine.Contract
import Trampoline.Proofs.Machine.OneByOne
import Trampoline.Proofs.Machine.Stamps
import Trampoline.Proofs.Machine.Ledger
import Trampoline.Proofs.Machine.Eager
import Trampoline.Proofs.Machine.Discarding
import Trampoline.Proofs.Machine.Folding
import Trampoline.Proofs.Machine.Stemming
import Trampoline.Proofs.Machine.Schedule
import Trampoline.Proofs.Command.Shape
import Trampoline.Proofs.Command.Integrity
import Trampoline.Proofs.Command.Replies
import Trampoline.Proofs.Command.LastWord
import Trampoline.Proofs.Numeral
import Trampoline.Proofs.Compound.Grammar
import Trampoline.Proofs.Value.RoundTrip
import Trampoline.Proofs.Template
import Trampoline.Proofs.Function.LineGrammar
import Trampoline.Proofs.Function.Recall
import Trampoline.Proofs.Machine.Lockstep
import Trampoline.Proofs.Function.Unused
import Trampoline.Proofs.Command.Unobserved
import Trampoline.Proofs.Session.Agreement
import Trampoline.Proofs.Command.Confinement
import Trampoline.Proofs.Command.Silence
import Trampoline.Proofs.Command.Generations
import Trampoline.Proofs.Function.LineLength
import Trampoline.Proofs.Template.Replacement
import Trampoline.Proofs.Function.ByName
import Trampoline.Proofs.Compound.Failure
import Trampoline.Proofs.Compound.Reading
import Trampoline.Proofs.Command.Shift
import Trampoline.Proofs.Command.Composition
import Trampoline.Proofs.Continuation.Nesting
import Trampoline.Proofs.Continuation.Lines
import Trampoline.Proofs.Continuation.Commands
import Trampoline.Proofs.Machine.Reuse
import Trampoline.Proofs.Machine.Finishing
import Trampoline.Proofs.Command.Undisturbed
import Trampoline.Proofs.Continuation.Script
import Trampoline.Proofs.NameMap
import Trampoline.Proofs.Library.Removal
import Trampoline.Proofs.Library.FileNames
import Trampoline.Proofs.Library.Folder
import Trampoline.Proofs.Command.Sections
import Trampoline.Proofs.Session.Profiling
import Trampoline.Proofs.Cursor
import Trampoline.Proofs.Cursor.Bytes
import Trampoline.Proofs.Compound.Bytes
import Trampoline.Proofs.Command.Slices
import Trampoline.Proofs.Cursor.Operations
import Trampoline.Proofs.Json.Grammar
import Trampoline.Proofs.Json.Writing
import Trampoline.Proofs.Settings
import Trampoline.Proofs.Trace.JsonLines
import Trampoline.Proofs.Trace.Retention
import Trampoline.Proofs.Decimal
