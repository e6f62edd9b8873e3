import Trampoline.Files.Tree
import Trampoline.Json.Printer
import Trampoline.Json.Reader
import Trampoline.Machine.State
import Trampoline.Trace.Recorder

/-! Settings: the limits of a run, what is observed of it, and where functions are.

A settings text is a JSON object with a section for the limits, one for the
observation and a path; what is missing keeps its default. A section may also be
an array of its values in order. Keys that a section does not know are passed
over, but the whole has no other keys than these three, and no known key comes
twice. -/
namespace Trampoline

/-- What is observed of runs. -/
structure Observation where
  /-- Whether runs are traced. -/
  enabled : Bool := false
  /-- How many records are held. -/
  bufferSize : Nat := 10000
  /-- Whether each record is echoed. -/
  echo : Bool := false
  /-- Whether records are written as JSON. -/
  json : Bool := false
  /-- Whether sections are timed. -/
  profiling : Bool := false
  deriving DecidableEq, Repr

namespace Observation

def tracing : Observation := { enabled := true }

/-- Everything on, and records echoed. -/
def debugging : Observation := { enabled := true, echo := true, profiling := true }

def isActive (o : Observation) : Bool := o.enabled || o.profiling

def recorder (o : Observation) : Trace.Recorder :=
  { enabled := o.enabled, echoing := o.echo, json := o.json, buffer := .ofCapacity o.bufferSize }

end Observation

structure Settings where
  limits : Limits := {}
  observation : Observation := {}
  /-- The folder of functions to start with. -/
  functions : Option String := none
  deriving DecidableEq, Repr

namespace Settings

/-! ### Writing -/

def limitsJson (l : Limits) : Json :=
  .ofFields [("command_limit", .nat l.commands), ("fork_limit", .nat l.forks),
    ("queue_limit", .nat l.queue)]

def observationJson (o : Observation) : Json :=
  .ofFields [("enabled", .bool o.enabled), ("buffer_size", .nat o.bufferSize),
    ("trace_to_stderr", .bool o.echo), ("json_output", .bool o.json), ("profiling", .bool o.profiling)]

def toJson (s : Settings) : Json :=
  let functions := match s.functions with
    | some path => [("functions", Json.string path)]
    | none => []
  .ofFields ([("execution", limitsJson s.limits), ("observability", observationJson s.observation)] ++
    functions)

def text (s : Settings) : String := String.ofList (s.toJson.pretty 0)

/-! ### Reading -/

/-- A field of a section: its key, and how a value changes the section. -/
structure Field (σ : Type) where
  key : String
  set : Json → σ → Option σ

/-- The largest number a setting can have. -/
def largest : Nat := UInt64.size - 1

/-- A natural number written as its digits alone. -/
def natural? : Json → Option Nat
  | .number literal => Numeral.readNat largest literal
  | _ => none

variable {σ : Type}

/-- Sets fields by their keys, which may come in any order. `seen` are the known keys set before. -/
def setByKey (fields : List (Field σ)) (closed : Bool) (seen : List String) (s : σ) :
    List (List Nat × Json) → Option σ
  | [] => some s
  | (points, value) :: rest =>
    match Json.ofPoints? points with
    | none => none
    | some key =>
      match fields.find? fun f => f.key == key with
      | none => if closed then none else setByKey fields closed seen s rest
      | some f =>
        if seen.contains key then none
        else
          match f.set value s with
          | none => none
          | some s => setByKey fields closed (key :: seen) s rest

/-- Sets fields in their order, as far as there are values. -/
def setInOrder (s : σ) : List (Field σ) → List Json → Option σ
  | _, [] => some s
  | [], _ :: _ => none
  | f :: fields, value :: rest =>
    match f.set value s with
    | none => none
    | some s => setInOrder s fields rest

/-- Reads a section over its defaults. A closed one knows no other keys. -/
def readSection (fields : List (Field σ)) (closed : Bool) (default : σ) : Json → Option σ
  | .object values => setByKey fields closed [] default values
  | .array values => setInOrder default fields values
  | _ => none

def limitsFields : List (Field Limits) :=
  [⟨"command_limit", fun j l => (natural? j).map fun n => { l with commands := n }⟩,
    ⟨"fork_limit", fun j l => (natural? j).map fun n => { l with forks := n }⟩,
    ⟨"queue_limit", fun j l => (natural? j).map fun n => { l with queue := n }⟩]

def observationFields : List (Field Observation) :=
  [⟨"enabled", fun j o => j.bool?.map fun b => { o with enabled := b }⟩,
    ⟨"buffer_size", fun j o => (natural? j).map fun n => { o with bufferSize := n }⟩,
    ⟨"trace_to_stderr", fun j o => j.bool?.map fun b => { o with echo := b }⟩,
    ⟨"json_output", fun j o => j.bool?.map fun b => { o with json := b }⟩,
    ⟨"profiling", fun j o => j.bool?.map fun b => { o with profiling := b }⟩]

/-- The path of the functions may also be given as null. -/
def setFunctions (j : Json) (s : Settings) : Option Settings :=
  match j with
  | .null => some { s with functions := none }
  | j => j.string?.map fun path => { s with functions := some path }

def fields : List (Field Settings) :=
  [⟨"execution", fun j s =>
      (readSection limitsFields false {} j).map fun l => { s with limits := l }⟩,
    ⟨"observability", fun j s =>
      (readSection observationFields false {} j).map fun o => { s with observation := o }⟩,
    ⟨"functions", setFunctions⟩]

def ofJson? (j : Json) : Option Settings := readSection fields true {} j

/-- Settings from a JSON value, if there was one to read. -/
def ofJson (j : Option Json) : Except Fault Settings :=
  match j.bind ofJson? with
  | some s => .ok s
  | none => .error ⟨.settings "the text is not a settings object", none⟩

def ofText (text : String) : Except Fault Settings := ofJson (Json.parse? text.toList)

/-- Reads settings from a file. A relative path of functions starts at the file's folder. -/
def load (files : Files) (path : String) : Except Fault Settings :=
  match files.readText path with
  | .error o => .error (o.fault path)
  | .ok text =>
    match ofText text with
    | .error f => .error { f with context := some { source := some path } }
    | .ok s =>
      .ok { s with functions := s.functions.map fun functions =>
        if Path.isAbsolute functions then functions else Path.join (Path.parent path) functions }

end Settings

end Trampoline
