import Trampoline.CommandError
import Trampoline.Machine.Run
import Trampoline.Trace.Event

/-! Sources, and the journal of what they cause.

A source is whoever a command is executed for. The journal collects what a run
leaves behind: the lines shown to people, and in one order the outcomes heard,
the trace, the sections profiled and the notes made. Trace and sections are kept
only if somebody asked for them. Both lists hold the newest first.

A scene is a journal beside the rest of the world, `η`. -/
namespace Trampoline

structure Source where
  name : String
  permission : Nat
  callback : Callback := .empty
  /-- A silent source reports no failures. -/
  silent : Bool := false
  deriving DecidableEq, Repr

namespace Source

def named (s : Source) (name : String) : Source := { s with name }
def silenced (s : Source) : Source := { s with silent := true }
def reportingTo (s : Source) (callback : Callback) : Source := { s with callback }

/-- The one who types at the prompt. -/
def console : Source := { name := "console", permission := 4 }

/-- The one function texts are compiled for. -/
def compiler : Source := { name := "function", permission := 2 }

end Source

/-- A line shown to people. -/
inductive OutputLine where
  | message (source text : String)
  | failure (source text : String)
  deriving DecidableEq, Repr

namespace OutputLine

def source : OutputLine → String
  | .message source _ => source
  | .failure source _ => source

def text : OutputLine → String
  | .message _ text => text
  | .failure _ text => text

def isFailure : OutputLine → Bool
  | .message .. => false
  | .failure .. => true

def describe : OutputLine → String
  | .message source text => "[" ++ source ++ "] " ++ text
  | .failure source text => "[" ++ source ++ "] error: " ++ text

end OutputLine

/-- What a profiled section is spent on: the walk of a chain, or one command of it. -/
inductive Activity where
  | prepare (input : String)
  | execute (input : String)
  deriving DecidableEq, Repr

def Activity.name : Activity → String
  | .prepare input => "prepare " ++ input
  | .execute input => "execute " ++ input

/-- One thing that happened. -/
inductive Happening where
  | heard (listener : String) (outcome : Outcome)
  | traced (event : Trace.Event)
  | opened (activity : Activity)
  | closed
  | note (text : String)
  deriving DecidableEq, Repr

namespace Happening

def boolText (b : Bool) : String := if b then "true" else "false"

/-- What a trace event adds to a protocol of everything that happened. -/
def eventText : Trace.Event → String
  | .command depth text => "command " ++ Numeral.text depth ++ " " ++ text
  | .returned depth text result =>
    "return " ++ Numeral.text depth ++ " " ++ text ++ " = " ++ Numeral.text result.toInt
  | .call depth function size =>
    "call " ++ Numeral.text depth ++ " " ++ function ++ " " ++ Numeral.text size
  | .error message => "error " ++ message
  | event => event.kind

/-- One line for what happened. -/
def describe : Happening → String
  | .heard listener outcome =>
    "callback " ++ listener ++ " " ++ boolText outcome.success ++ " " ++
      Numeral.text outcome.value.toInt
  | .traced event => "trace " ++ eventText event
  | .opened activity => "push " ++ activity.name
  | .closed => "pop"
  | .note text => text

end Happening

structure Journal where
  traced : Bool := false
  profiled : Bool := false
  output : List OutputLine := []
  happenings : List Happening := []
  deriving DecidableEq, Repr

namespace Journal

def add (j : Journal) (h : Happening) : Journal := { j with happenings := h :: j.happenings }

def display (j : Journal) (line : OutputLine) : Journal := { j with output := line :: j.output }

def trace (j : Journal) (event : Trace.Event) : Journal :=
  if j.traced then j.add (.traced event) else j

def openSection (j : Journal) (activity : Activity) : Journal :=
  if j.profiled then j.add (.opened activity) else j

def closeSection (j : Journal) : Journal := if j.profiled then j.add .closed else j

/-- Every listener hears the outcome, in order. -/
def hear (j : Journal) (callback : Callback) (outcome : Outcome) : Journal :=
  callback.listeners.foldl (fun j listener => j.add (.heard listener outcome)) j

/-- An error met by a source: it is traced, and shown unless the chain is forked or the source
silent. -/
def handleError (j : Journal) (source : Source) (e : CommandError) (forked : Bool) : Journal :=
  let j := if j.traced then j.trace (.error e.describe) else j
  if forked || source.silent then j else j.display (.failure source.name e.describe)

end Journal

structure Scene (η : Type) where
  journal : Journal
  host : η

namespace Scene

variable {η : Type}

def write (s : Scene η) (f : Journal → Journal) : Scene η := { s with journal := f s.journal }

/-- The lines shown so far, oldest first, and the scene without them. -/
def takeOutput (s : Scene η) : List OutputLine × Scene η :=
  (s.journal.output.reverse, s.write fun j => { j with output := [] })

/-- What happened so far, oldest first, and the scene without it. -/
def takeHappenings (s : Scene η) : List Happening × Scene η :=
  (s.journal.happenings.reverse, s.write fun j => { j with happenings := [] })

end Scene

instance {η : Type} : Audience (Scene η) where
  hear callback outcome s := s.write (·.hear callback outcome)

end Trampoline
