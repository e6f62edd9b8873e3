import Trampoline.Prompt
import Trampoline.Text.Backspace

/-! The command line.

Arguments are options, short ones in clusters, and the paths of scripts. The
options say what is set before the session starts and what is run first: the
scripts, then the commands, then the functions, each kind in the order given. Unless
the program is told to stop there, it goes on as a prompt without a terminal. -/
namespace Trampoline.CommandLine

structure Options where
  scripts : List String := []
  batch : Bool := false
  config : Option String := none
  functions : Option String := none
  commands : List String := []
  runs : List String := []
  commandLimit : Option Nat := none
  forkLimit : Option Nat := none
  queueLimit : Option Nat := none
  trace : Bool := false
  json : Bool := false
  profile : Bool := false
  verbose : Bool := false
  deriving DecidableEq, Repr

/-- What the arguments ask for when it is not a session. -/
inductive Other where
  | help
  | version
  | misuse
  deriving DecidableEq, Repr

/-- What an option does. Setting fails when the value is no good or the option may not be repeated. -/
inductive Effect where
  | switch (set : Options → Option Options)
  | value (set : String → Options → Option Options)
  | ask (other : Other)

/-! ### The options -/

/-- Switches something on that is off. -/
def switchOn (get : Options → Bool) (set : Options → Options) : Effect :=
  .switch fun o => if get o then none else some (set o)

/-- Gives a value to something that has none. -/
def once {α : Type} (read : String → Option α) (get : Options → Option α)
    (set : Options → α → Options) : Effect :=
  .value fun text o =>
    match get o, read text with
    | none, some a => some (set o a)
    | _, _ => none

def readPath (text : String) : Option String := if text.isEmpty then none else some text

def readLimit (text : String) : Option Nat :=
  Numeral.readUnsigned Directive.largestLimit text.toList

def batch : Effect := switchOn (·.batch) fun o => { o with batch := true }
def config : Effect := once readPath (·.config) fun o path => { o with config := some path }
def functions : Effect := once readPath (·.functions) fun o path => { o with functions := some path }
def execute : Effect := .value fun text o => some { o with commands := o.commands ++ [text] }
def runFunction : Effect := .value fun text o => some { o with runs := o.runs ++ [text] }
def verbose : Effect := switchOn (·.verbose) fun o => { o with verbose := true }

def ofName : String → Option Effect
  | "batch" => some batch
  | "config" => some config
  | "functions" => some functions
  | "execute" => some execute
  | "run" => some runFunction
  | "command-limit" => some (once readLimit (·.commandLimit) fun o n => { o with commandLimit := some n })
  | "fork-limit" => some (once readLimit (·.forkLimit) fun o n => { o with forkLimit := some n })
  | "queue-limit" => some (once readLimit (·.queueLimit) fun o n => { o with queueLimit := some n })
  | "trace" => some (switchOn (·.trace) fun o => { o with trace := true })
  | "json" => some (switchOn (·.json) fun o => { o with json := true })
  | "profile" => some (switchOn (·.profile) fun o => { o with profile := true })
  | "verbose" => some verbose
  | "help" => some (.ask .help)
  | "version" => some (.ask .version)
  | _ => none

def ofLetter : Char → Option Effect
  | 'b' => some batch
  | 'c' => some config
  | 'f' => some functions
  | 'e' => some execute
  | 'r' => some runFunction
  | 'v' => some verbose
  | 'h' => some (.ask .help)
  | 'V' => some (.ask .version)
  | _ => none

/-! ### Reading arguments -/

/-- The options read so far. -/
structure Progress where
  options : Options := {}
  /-- What the next argument is the value of. -/
  awaiting : Option (String → Options → Option Options) := none
  /-- Whether all further arguments are paths. -/
  trailing : Bool := false

def expect : Option Options → Except Other Progress
  | some options => .ok { options }
  | none => .error .misuse

/-- One more path of a script. -/
def addScript (p : Progress) (path : String) : Except Other Progress :=
  if path.isEmpty then .error .misuse
  else .ok { p with options := { p.options with scripts := p.options.scripts ++ [path] } }

/-- An option by its name; a value may follow an equals sign. -/
def takeName (o : Options) (body : List Char) : Except Other Progress :=
  let name := body.takeWhile (· != '=')
  let given : Option String := match body.drop name.length with
    | [] => none
    | _ :: rest => some (String.ofList rest)
  match ofName (String.ofList name), given with
  | none, _ => .error .misuse
  | some (.switch set), none => expect (set o)
  | some (.value set), none => .ok { options := o, awaiting := some set }
  | some (.value set), some text => expect (set text o)
  | some (.ask other), none => .error other
  | some _, some _ => .error .misuse

/-- Options by their letters. What follows the letter of an option with a value is the value, an
equals sign before it left out. -/
def takeLetters (o : Options) : List Char → Except Other Progress
  | [] => .ok { options := o }
  | c :: rest =>
    match ofLetter c with
    | none => .error .misuse
    | some (.ask other) => .error other
    | some (.switch set) =>
      match set o with
      | none => .error .misuse
      | some o => takeLetters o rest
    | some (.value set) =>
      match rest with
      | [] => .ok { options := o, awaiting := some set }
      | '=' :: text => expect (set (String.ofList text) o)
      | text => expect (set (String.ofList text) o)

/-- One more argument. A value that looks like an option is not taken for one. -/
def step (p : Progress) (argument : String) : Except Other Progress :=
  match argument.toList, p.trailing, p.awaiting with
  | _, true, _ => addScript p argument
  | '-' :: _ :: _, false, some _ => .error .misuse
  | _, false, some set => expect (set argument p.options)
  | ['-', '-'], false, none => .ok { p with trailing := true }
  | '-' :: '-' :: body, false, none => takeName p.options body
  | '-' :: c :: letters, false, none => takeLetters p.options (c :: letters)
  | _, false, none => addScript p argument

def stepAll (p : Progress) : List String → Except Other Progress
  | [] => .ok p
  | argument :: rest =>
    match step p argument with
    | .ok p => stepAll p rest
    | .error other => .error other

/-- Reads the arguments. JSON is asked for only together with a trace. -/
def parse (arguments : List String) : Except Other Options :=
  match stepAll {} arguments with
  | .error other => .error other
  | .ok p =>
    if p.awaiting.isSome || (p.options.json && !p.options.trace) then .error .misuse
    else .ok p.options

/-! ### Running -/

def versionText : String := "cascade " ++ Prompt.version ++ "\n"

/-- The options as the help lists them, with what they do. -/
def helpRows : List (String × String) :=
  [("-b, --batch", "Exit after running files, commands, and functions"),
    ("-c, --config <CONFIG>", "JSON config file with `execution` and `observability` sections"),
    ("-f, --functions <FUNCTIONS>", "Directory of function files to load"),
    ("-e, --execute <COMMANDS>", "Command to run (repeatable)"),
    ("-r, --run <RUN>", "Function to run (repeatable)"),
    ("    --command-limit <COMMAND_LIMIT>", "Maximum cost units per run"),
    ("    --fork-limit <FORK_LIMIT>", "Maximum sources per redirect step"),
    ("    --queue-limit <QUEUE_LIMIT>", "Maximum pending queue entries"),
    ("    --trace", "Trace runs to stderr"),
    ("    --json", "Trace as JSON lines"),
    ("    --profile", "Profile runs and print timings on exit"),
    ("-v, --verbose", "Enable debug logging"),
    ("-h, --help", "Print help"),
    ("-V, --version", "Print version")]

/-- The rows of a list in two columns. The second one starts where the widest row of the first one
leaves two blanks. -/
def columns (rows : List (String × String)) : List String :=
  let widest := rows.foldl (fun n row => max n row.1.length) 0
  rows.map fun (left, right) =>
    "  " ++ left ++ String.ofList (List.replicate (widest - left.length + 2) ' ') ++ right

def helpText : String := String.join <| List.map (· ++ "\n") <|
  ["Run command functions on a trampolined execution engine",
    "",
    "Usage: cascade [OPTIONS] [FILES]...",
    "",
    "Arguments:",
    "  [FILES]...  Script files of commands and directives, evaluated in order",
    "",
    "Options:"] ++ columns helpRows

/-- Settings with what the options say about them. -/
def Options.override (o : Options) (s : Settings) : Settings :=
  let limits : Limits :=
    ⟨o.commandLimit.getD s.limits.commands, o.forkLimit.getD s.limits.forks,
      o.queueLimit.getD s.limits.queue⟩
  let observation :=
    if o.trace then { s.observation with enabled := true, echo := true, json := o.json }
    else s.observation
  { limits
    observation := { observation with profiling := observation.profiling || o.profile }
    functions := o.functions <|> s.functions }

def settings (o : Options) (files : Files) : Except Fault Settings :=
  match o.config with
  | none => .ok (o.override {})
  | some path => (Settings.load files path).map o.override

/-- The prompt before anything is run, with the functions that the settings name. A function text
that does not compile is a warning. -/
def prepare (files : Files) (s : Settings) : Except Fault Unit × Prompt :=
  let session := Session.ofSettings s
  match s.functions with
  | none => (.ok (), { session, files, plain := true })
  | some path =>
    match session.loadFolder files path with
    | (.error f, session) => (.error f, { session, files, plain := true })
    | (.ok report, session) =>
      let p : Prompt := { session, files, plain := true }
      (.ok (), report.faults.foldl
        (fun p f => p.err (Prompt.yellow ("Warning: " ++ f.message) ++ "\n")) p)

/-- Runs scripts in order; one that cannot be read ends the program. -/
def runScripts (p : Prompt) : List String → Except Fault Unit × Prompt
  | [] => (.ok (), p)
  | path :: rest =>
    match p.runFile path with
    | (.ok (), p) => runScripts p rest
    | (.error f, p) => (.error f, p)

/-- Evaluates what the options ask to be run at the start. -/
def start (o : Options) (p : Prompt) : Except Fault Unit × Prompt :=
  match runScripts p o.scripts with
  | (.error f, p) => (.error f, p)
  | (.ok (), p) =>
    let inputs := o.commands ++ o.runs.map (":run " ++ ·)
    (.ok (), inputs.foldl (fun p input => (p.submit input).2) p)

/-- What one more line makes of an input. -/
inductive Gathered where
  | complete (input : List Char)
  /-- The input is still open. -/
  | pending (input : List Char)
  /-- A backspace takes a part of a character away. -/
  | broken
  deriving DecidableEq, Repr

/-- One more line of the input, with its end, after those of a reading left open. -/
def gather (pending line : List Char) : Gathered :=
  let bare := match line.reverse with
    | '\n' :: '\r' :: rest => rest.reverse
    | '\n' :: rest => rest.reverse
    | rest => rest.reverse
  match Text.erase (pending ++ bare) with
  | none => .broken
  | some input =>
    if Continuation.isComplete input then .complete input
    else .pending (input ++ line.drop bare.length)

/-- The lines of a text, each with its line feed. -/
def rawLines (cs : List Char) : List (List Char) :=
  let pieces := Text.split '\n' cs
  pieces.dropLast.map (· ++ ['\n']) ++ (match pieces.getLast? with
    | some [] => []
    | some last => [last]
    | none => [])

/-- Readings without a terminal, up to a line that is broken, and whether there is none: the lines
of an input that is still open are kept together, and lost if the input ends with them. -/
def readings (pending : List Char) : List (List Char) → List Reading × Bool
  | [] => ([], true)
  | line :: rest =>
    match gather pending line with
    | .complete input =>
      let (later, whole) := readings [] rest
      (.line (String.ofList input) :: later, whole)
    | .pending input => readings input rest
    | .broken => ([], false)

/-- What the program leaves behind. -/
structure Exit where
  code : Nat
  out : String := ""
  err : String := ""

/-- The end of the program, with the fault that ended it, if there was one. -/
def finish (code : Nat) : Except Fault Unit × Prompt → Exit
  | (.ok (), p) => ⟨code, p.outText, p.errText⟩
  | (.error f, p) =>
    let p := p.showFault f
    ⟨1, p.outText, p.errText⟩

/-- The end of a program that does not go on as a prompt. -/
def close (o : Options) (p : Prompt) : Exit :=
  let p := if o.profile then p.err (p.session.profile.table Prompt.profileRows ++ "\n") else p
  finish (if p.failures == 0 then 0 else 1) (.ok (), p)

/-- Whether the options run anything, and so no greeting is due. -/
def Options.hasInput (o : Options) : Bool :=
  !(o.scripts.isEmpty && o.commands.isEmpty && o.runs.isEmpty)

/-- The prompt once everything the options ask for was run, or the end if that failed. -/
def begin (o : Options) (files : Files) : Except Exit Prompt :=
  match settings o files with
  | .error f => .error ⟨1, "", Prompt.red ("Error: " ++ f.message) ++ "\n"⟩
  | .ok s =>
    match prepare files s with
    | (.error f, p) => .error (finish 1 (.error f, p))
    | (.ok (), p) =>
      match start o p with
      | (.error f, p) => .error (finish 1 (.error f, p))
      | (.ok (), p) => .ok { p with banner := !o.hasInput }

/-- The code of a program that stopped at a broken line. -/
def brokenCode : Nat := 101

/-- The loop over an input. At a broken line the program stops where it is. -/
def converse (p : Prompt) (input : String) : Exit :=
  let (lines, whole) := readings [] (rawLines input.toList)
  match whole, p.greet.feed lines with
  | false, (.waiting, p) =>
    let p := p.ask
    ⟨brokenCode, p.outText, p.errText⟩
  | _, result => finish 0 (Prompt.leave result)

/-- Runs a session as the options say. -/
def runSession (o : Options) (files : Files) (input : String) : Exit :=
  match begin o files with
  | .error exit => exit
  | .ok p => if o.batch then close o p else converse p input

/-- What is left behind when the arguments ask for no session. -/
def answer : Other → Exit
  | .help => ⟨0, helpText, ""⟩
  | .version => ⟨0, versionText, ""⟩
  | .misuse => ⟨2, "", "usage: cascade [OPTIONS] [FILES]...\n"⟩

/-- The whole program: its arguments, the files it can read and the text of its input. -/
def run (arguments : List String) (files : Files) (input : String) : Exit :=
  match parse arguments with
  | .error other => answer other
  | .ok o => runSession o files input

end Trampoline.CommandLine
