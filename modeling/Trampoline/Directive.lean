import Trampoline.Fault
import Trampoline.Text.Split

/-! Directives: lines at the prompt that start with a colon.

The name of a directive ends at the first blank, and what follows, trimmed, is its
argument. Those that take no argument pass over one. -/
namespace Trampoline

inductive TraceMode where
  | on
  | off
  /-- Prints the trace of the last run. -/
  | print
  /-- Prints it as JSON. -/
  | json
  deriving DecidableEq, Repr

/-- How a mode is asked for. -/
def TraceMode.word : TraceMode → String
  | .on => "on"
  | .off => "off"
  | .print => "show"
  | .json => "json"

inductive ProfileMode where
  | on
  | off
  | print
  | reset
  deriving DecidableEq, Repr

def ProfileMode.word : ProfileMode → String
  | .on => "on"
  | .off => "off"
  | .print => "show"
  | .reset => "reset"

inductive LimitKind where
  | command
  | fork
  | queue
  deriving DecidableEq, Repr

def LimitKind.word : LimitKind → String
  | .command => "command"
  | .fork => "fork"
  | .queue => "queue"

inductive Directive where
  | load (path : String)
  | run (id : String) (arguments : Option String)
  | functions
  | trace (mode : TraceMode)
  | profile (mode : ProfileMode)
  | limits (change : Option (LimitKind × Nat))
  | help
  | quit
  deriving DecidableEq, Repr

namespace Directive

/-- Why a line that starts with a colon is no directive. -/
inductive Mistake where
  | unknown (name : String)
  | missing (directive argument : String)
  | invalid (directive value : String)
  deriving DecidableEq, Repr

def Mistake.message : Mistake → String
  | .unknown name => "unknown directive :" ++ name ++ " (try :help)"
  | .missing directive argument => ":" ++ directive ++ " requires " ++ argument
  | .invalid directive value => "invalid argument to :" ++ directive ++ ": " ++ value

def Mistake.fault (m : Mistake) : Fault := .internal m.message

/-- The largest limit that can be set. -/
def largestLimit : Nat := UInt64.size - 1

def parseLimit (argument : List Char) : Except Mistake (Option (LimitKind × Nat)) :=
  let invalid (word : List Char) : Mistake := .invalid "limits" (String.ofList word)
  match Text.words argument with
  | [] => .ok none
  | word :: rest =>
    match [LimitKind.command, .fork, .queue].find? (·.word == String.ofList word), rest with
    | none, _ => .error (invalid word)
    | some _, [] => .error (.missing "limits" "a number")
    | some kind, number :: rest =>
      match Numeral.readUnsigned largestLimit number, rest with
      | none, _ => .error (invalid number)
      | some _, extra :: _ => .error (invalid extra)
      | some n, [] => .ok (some (kind, n))

def parseRun (argument : List Char) : Except Mistake Directive :=
  let (id, arguments) := Text.breakBlank argument
  if id.isEmpty then .error (.missing "run" "a function id")
  else .ok (.run (String.ofList id) (arguments.map fun cs => String.ofList (Text.trim cs)))

/-- The trace is printed if nothing else is asked for. -/
def parseTrace (argument : String) : Except Mistake Directive :=
  if argument.isEmpty then .ok (.trace .print)
  else
    match [TraceMode.on, .off, .print, .json].find? (·.word == argument) with
    | some mode => .ok (.trace mode)
    | none => .error (.invalid "trace" argument)

/-- The profile is printed if nothing else is asked for. -/
def parseProfile (argument : String) : Except Mistake Directive :=
  if argument.isEmpty then .ok (.profile .print)
  else
    match [ProfileMode.on, .off, .print, .reset].find? (·.word == argument) with
    | some mode => .ok (.profile mode)
    | none => .error (.invalid "profile" argument)

/-- A directive with its name and its argument. -/
def named (name : String) (argument : List Char) : Except Mistake Directive :=
  match name with
  | "load" =>
    if argument.isEmpty then .error (.missing "load" "a directory")
    else .ok (.load (String.ofList argument))
  | "run" => parseRun argument
  | "functions" => .ok .functions
  | "trace" => parseTrace (String.ofList argument)
  | "profile" => parseProfile (String.ofList argument)
  | "limits" => (parseLimit argument).map .limits
  | "help" => .ok .help
  | "h" => .ok .help
  | "?" => .ok .help
  | "quit" => .ok .quit
  | "q" => .ok .quit
  | "exit" => .ok .quit
  | other => .error (.unknown other)

/-- Reads a line; there is none if it does not start with a colon. -/
def parse (input : String) : Except Mistake (Option Directive) :=
  match Text.trim input.toList with
  | ':' :: body =>
    let (name, argument) := Text.breakBlank body
    (named (String.ofList name) (Text.trim (argument.getD []))).map some
  | _ => .ok none

def isQuit (input : String) : Bool :=
  match parse input with
  | .ok (some .quit) => true
  | _ => false

end Directive

end Trampoline
