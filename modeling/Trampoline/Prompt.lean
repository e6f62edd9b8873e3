import Trampoline.Directive
import Trampoline.Draft
import Trampoline.Session

/-! The prompt: commands and directives typed line by line.

The prompt is a machine that is told what was read and keeps what is to be shown,
so the whole loop can be followed without a terminal. Each reading answers the
question asked last: for a new input, or for the next line of one left open. Runs
that abort and directives that fail are counted. -/
namespace Trampoline

/-- Something written to the output, or to the error output. -/
inductive Shown where
  | out (text : String)
  | err (text : String)
  deriving DecidableEq, Repr

/-- What came of asking for a line. -/
inductive Reading where
  | line (text : String)
  /-- The user broke off. -/
  | interrupted
  /-- There are no more lines. -/
  | ended
  | failed (fault : Fault)
  deriving DecidableEq, Repr

/-- Whether the loop goes on. -/
inductive Status where
  | waiting
  | finished
  | failed (fault : Fault)
  deriving DecidableEq, Repr

namespace Prompt

def red (text : String) : String := "\x1b[31m" ++ text ++ "\x1b[0m"
def yellow (text : String) : String := "\x1b[33m" ++ text ++ "\x1b[0m"
def bold (text : String) : String := "\x1b[1m" ++ text ++ "\x1b[0m"

/-- The program's name and version. -/
def version : String := "0.1.0"

def bannerText : String :=
  "\x1b[1;36mCascade\x1b[0m v" ++ version ++ "\n" ++
  "Type commands to run them as the console. :help lists directives, Ctrl+D exits.\n\n"

def helpText : String := "\n".intercalate
  ["Commands run as the console. Directives:",
    "  :load <dir>                      load function files",
    "  :run <id> [<args>]               run a function",
    "  :functions                       list loaded functions",
    "  :trace on|off|show|json          trace runs",
    "  :profile on|off|show|reset       profile runs",
    "  :limits [command|fork|queue <n>] show or set limits",
    "  :help                            this text",
    "  :quit                            leave"]

/-- The words offered for completion before any function is loaded. -/
def keywords : List String :=
  ["say", "counter", "fail", "execute", "return", "function", "trigger", "as", "if", "unless",
    "silent", "run", ":load", ":run", ":functions", ":trace", ":profile", ":limits", ":help", ":quit"]

/-- The rows of a profile that are shown. -/
def profileRows : Nat := 20

end Prompt

structure Prompt where
  session : Session
  files : Files
  banner : Bool := true
  question : String := "> "
  continuation : String := "| "
  /-- Whether questions are written to the output, as they are without a terminal. -/
  plain : Bool := false
  /-- Runs aborted and directives failed. -/
  failures : Nat := 0
  /-- The words offered for completion. -/
  offered : List String := Prompt.keywords ++ session.functionIds
  /-- The input left open. -/
  pending : Option (List Char) := none
  /-- What was shown, the questions asked and the inputs taken, each newest first. -/
  shown : List Shown := []
  asked : List String := []
  history : List String := []

namespace Prompt

def out (p : Prompt) (text : String) : Prompt := { p with shown := .out text :: p.shown }
def err (p : Prompt) (text : String) : Prompt := { p with shown := .err text :: p.shown }

def fail (p : Prompt) : Prompt := { p with failures := p.failures + 1 }

def showFault (p : Prompt) (f : Fault) : Prompt := p.err (red ("Error: " ++ f.message) ++ "\n")

/-- Takes over a session, and shows the records it echoed. -/
def resume (p : Prompt) (s : Session) : Prompt :=
  let (echoes, recorder) := s.recorder.takeEchoes
  echoes.foldl (fun p line => p.err (line ++ "\n")) { p with session := { s with recorder } }

def offerFunctions (p : Prompt) : Prompt := { p with offered := keywords ++ p.session.functionIds }

/-! ### Evaluation -/

def lineText (line : OutputLine) : String :=
  if line.isFailure then red line.describe else line.describe

def reportText (r : Report) : String :=
  let abort := r.abort.toList.map fun f => red ("aborted: " ++ f.message)
  let outcome := r.outcome.toList.map fun o => bold ("=> " ++ o.describe)
  "\n".intercalate (r.output.map lineText ++ abort ++ outcome)

/-- Takes over the session after a run; the text is what the run has to show. -/
def report (p : Prompt) (result : Report × Session) : String × Prompt :=
  let p := p.resume result.2
  (reportText result.1, if result.1.abort.isSome then p.fail else p)

def load (p : Prompt) (path : String) : Except Fault String × Prompt :=
  let (result, s) := p.session.loadFolder p.files path
  let p := { p with session := s }
  match result with
  | .error f => (.error f, p)
  | .ok r =>
    let text := "loaded " ++ Numeral.text r.loaded.length ++ " function(s) from " ++ path ++
      String.join (r.faults.map fun f => "\n  " ++ f.message)
    (.ok text, { p.offerFunctions with failures := p.failures + r.faults.length })

def setLimit (l : Limits) : LimitKind × Nat → Limits
  | (.command, n) => { l with commands := n }
  | (.fork, n) => { l with forks := n }
  | (.queue, n) => { l with queue := n }

def limitsText (l : Limits) : String :=
  "command " ++ Numeral.text l.commands ++ ", fork " ++ Numeral.text l.forks ++ ", queue " ++
    Numeral.text l.queue

def evalTrace (p : Prompt) : TraceMode → String × Prompt
  | .on => ("tracing on", { p with session := p.session.setTracing true })
  | .off => ("tracing off", { p with session := p.session.setTracing false })
  | .print => (p.session.lastTrace, p)
  | .json => (Trace.jsonLines p.session.recorder.present, p)

def evalProfile (p : Prompt) : ProfileMode → String × Prompt
  | .on => ("profiling on", { p with session := p.session.setProfiling true })
  | .off => ("profiling off", { p with session := p.session.setProfiling false })
  | .print => (p.session.profile.table profileRows, p)
  | .reset => ("profile reset", { p with session := p.session.resetProfile })

def evalLimits (p : Prompt) (change : Option (LimitKind × Nat)) : String × Prompt :=
  let limits := match change with
    | some change => setLimit p.session.limits change
    | none => p.session.limits
  (limitsText limits, { p with session := { p.session with limits } })

def evalDirective (p : Prompt) : Directive → Except Fault String × Prompt
  | .load path => p.load path
  | .run id arguments =>
    let (text, p) := p.report (p.session.runFunction id arguments)
    (.ok text, p)
  | .functions => (.ok ("\n".intercalate p.session.functionIds), p)
  | .trace mode =>
    let (text, p) := p.evalTrace mode
    (.ok text, p)
  | .profile mode =>
    let (text, p) := p.evalProfile mode
    (.ok text, p)
  | .limits change =>
    let (text, p) := p.evalLimits change
    (.ok text, p)
  | .help => (.ok helpText, p)
  | .quit => (.ok "", p)

/-- Evaluates a command or a directive; the text is to be printed. -/
def eval (p : Prompt) (input : String) : Except Fault String × Prompt :=
  match Directive.parse input with
  | .error mistake => (.error mistake.fault, p)
  | .ok (some directive) => p.evalDirective directive
  | .ok none =>
    let (text, p) := p.report (p.session.runCommand (Text.trimmed input))
    (.ok text, p)

/-- Evaluates an input and prints what comes of it. Says whether to go on. -/
def submit (p : Prompt) (input : String) : Bool × Prompt :=
  if Directive.isQuit input then (false, p)
  else
    match p.eval input with
    | (.ok text, p) => (true, if text.isEmpty then p else p.out (text ++ "\n"))
    | (.error f, p) => (true, p.fail.showFault f)

/-! ### Scripts -/

/-- Evaluates inputs in order. Says whether to go on: not after the first that quits. -/
def submitAll (p : Prompt) : List (List Char) → Bool × Prompt
  | [] => (true, p)
  | input :: rest =>
    match p.submit (String.ofList input) with
    | (true, p) => submitAll p rest
    | (false, p) => (false, p)

/-- Evaluates a script. -/
def runScript (p : Prompt) (path text : String) : Prompt :=
  let (inputs, left) := Draft.inputs none (Text.lines text.toList)
  match p.submitAll inputs with
  | (false, p) => p
  | (true, p) =>
    match left with
    | none => p
    | some _ =>
      p.fail.showFault (.internal (path ++ ": unexpected end of file after a continuation"))

/-- Evaluates the script in a file. -/
def runFile (p : Prompt) (path : String) : Except Fault Unit × Prompt :=
  match p.files.readText path with
  | .error o => (.error ⟨.io ("failed to read " ++ path ++ ": " ++ o.message), none⟩, p)
  | .ok text => (.ok (), p.runScript path text)

/-! ### The loop -/

/-- Asks for a line. -/
def ask (p : Prompt) : Prompt :=
  let text := if p.pending.isSome then p.continuation else p.question
  let p := { p with asked := text :: p.asked }
  if p.plain then p.out text else p

/-- Takes an input that may still be open. -/
def take (p : Prompt) (input : List Char) : Status × Prompt :=
  if !Continuation.isComplete input then (.waiting, { p with pending := some input })
  else
    let p := { p with pending := none }
    if (Text.trim input).isEmpty then (.waiting, p)
    else
      let text := String.ofList input
      match { p with history := text :: p.history }.submit text with
      | (true, p) => (.waiting, p)
      | (false, p) => (.finished, p)

/-- Takes what was read. -/
def read (p : Prompt) (reading : Reading) : Status × Prompt :=
  match reading, p.pending with
  | .failed f, _ => (.failed f, { p with pending := none })
  | .line text, none => p.take text.toList
  | .line text, some input => p.take (Continuation.join input text.toList)
  | .interrupted, none => (.waiting, p.out "\n")
  | .interrupted, some _ => (.waiting, { p with pending := none }.out "\nInput cancelled.\n")
  | .ended, none => (.finished, p)
  | .ended, some _ =>
    (.failed (.internal "unexpected end of input after a continuation"), { p with pending := none })

def greet (p : Prompt) : Prompt := if p.banner then p.out bannerText else p

def part (p : Prompt) : Prompt := p.out "\nGoodbye!\n"

/-- Asks and reads as long as there are readings and the loop goes on. -/
def feed (p : Prompt) : List Reading → Status × Prompt
  | [] => (.waiting, p)
  | reading :: rest =>
    match p.ask.read reading with
    | (.waiting, p) => feed p rest
    | stopped => stopped

/-- The end of the loop. One that still waits is told that there are no more lines. -/
def leave : Status × Prompt → Except Fault Unit × Prompt
  | (.waiting, p) =>
    match p.ask.read .ended with
    | (.failed f, p) => (.error f, p)
    | (_, p) => (.ok (), p.part)
  | (.finished, p) => (.ok (), p.part)
  | (.failed f, p) => (.error f, p)

/-- The whole loop. -/
def run (p : Prompt) (readings : List Reading) : Except Fault Unit × Prompt :=
  leave (p.greet.feed readings)

/-! ### What was shown -/

/-- The text written to the output. -/
def outText (p : Prompt) : String :=
  String.join (p.shown.reverse.map fun
    | .out text => text
    | .err _ => "")

/-- The text written to the error output. -/
def errText (p : Prompt) : String :=
  String.join (p.shown.reverse.map fun
    | .out _ => ""
    | .err text => text)

/-- Forgets what was shown, asked and taken. -/
def wipe (p : Prompt) : Prompt := { p with shown := [], asked := [], history := [] }

end Prompt

end Trampoline
