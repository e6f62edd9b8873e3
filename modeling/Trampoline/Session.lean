import Trampoline.Loading
import Trampoline.Profile
import Trampoline.Settings
import Trampoline.Submission

/-! Sessions: a host, and what is observed of the runs on it.

Every submission runs on a machine of its own, so nothing it returns from can reach
the work of another. What the console hears last is the submission's outcome. A
submission that is refused shows the reason as a failure of the console and counts
as no run.

The clock stands still during a run: it is set from outside between submissions, in
nanoseconds since the session began. -/
namespace Trampoline

open Command (standard)

/-- What one submission did. -/
structure Report where
  /-- What the console heard last. -/
  outcome : Option Outcome := none
  cost : Nat := 0
  /-- The deepest frame reached, zero if the run was aborted. -/
  deepest : Nat := 0
  output : List OutputLine := []
  abort : Option Fault := none

namespace Report

def isSuccess (r : Report) : Bool :=
  r.abort.isNone && match r.outcome with
    | some outcome => outcome.success
    | none => true

end Report

def Outcome.describe (o : Outcome) : String :=
  if o.success then Numeral.text o.value.toInt else "failed"

namespace Ending

def fault? : Ending → Option Fault
  | .aborted fault => some fault
  | _ => none

def depth : Ending → Nat
  | .finished _ deepest => deepest
  | _ => 0

end Ending

structure Session where
  host : Host := {}
  limits : Limits := {}
  observation : Observation := {}
  recorder : Trace.Recorder := {}
  profile : Profile := {}
  /-- Lines shown and not yet taken, newest first. -/
  output : List OutputLine := []
  clock : Nat := 0

namespace Session

/-- A new session. The functions that settings name are not loaded by this. -/
def ofSettings (s : Settings) : Session :=
  { limits := s.limits, observation := s.observation, recorder := s.observation.recorder }

def withLibrary (s : Session) (library : Library) : Session := { s with host := { s.host with library } }

/-- Turns tracing of later runs on or off. -/
def setTracing (s : Session) (on : Bool) : Session :=
  { s with observation := { s.observation with enabled := on }
           recorder := { s.recorder with enabled := on } }

/-- Turns profiling of later runs on or off. -/
def setProfiling (s : Session) (on : Bool) : Session :=
  { s with observation := { s.observation with profiling := on } }

def resetProfile (s : Session) : Session := { s with profile := {} }

/-- The trace of the last run. -/
def lastTrace (s : Session) : String := s.recorder.texts s.recorder.present

/-! ### Functions -/

def loadText (s : Session) (id text : String) : Except Fault String × Session :=
  match s.host.library.loadText id text with
  | .ok (id, library) => (.ok id, s.withLibrary library)
  | .error fault => (.error fault, s)

def loadFolder (s : Session) (files : Files) (path : String) : Except Fault LoadReport × Session :=
  let (result, library) := s.host.library.loadFolder files path
  (result, s.withLibrary library)

def functionIds (s : Session) : List String := s.host.library.names

/-! ### Output -/

def emit (s : Session) (line : OutputLine) : Session := { s with output := line :: s.output }

/-- The lines shown so far, oldest first, and the session without them. -/
def takeOutput (s : Session) : List OutputLine × Session := (s.output.reverse, { s with output := [] })

/-! ### Running -/

/-- Where the console's outcomes are heard. -/
def listener : Callback := .one "console"

/-- What happened in a run reaches the recorder and the profile. -/
def observe (s : Session) : Happening → Session
  | .traced event => { s with recorder := s.recorder.record s.clock event }
  | .opened activity => { s with profile := s.profile.openSection s.clock activity.name }
  | .closed => { s with profile := s.profile.closeSection s.clock }
  | _ => s

/-- What was heard, in order. -/
def heard (happenings : List Happening) : List Outcome :=
  happenings.filterMap fun
    | .heard _ outcome => some outcome
    | _ => none

/-- Runs one action on a machine of its own: how it ended, what it cost and what happened. -/
def runAction (s : Session) (traced profiled : Bool) (action : Action standard) :
    Ending × Nat × List Happening × Session :=
  let world : Scene Host := ⟨{ traced, profiled, output := s.output }, s.host⟩
  let (ending, m) := Command.run (({ limits := s.limits, world } : Machine _ _).submit listener (.act action))
  let (happenings, world) := m.world.takeHappenings
  (ending, m.cost, happenings, { s with host := world.host, output := world.journal.output })

/-- Runs a submission of the console, if there is one. -/
def execute (s : Session) (submission : Except CommandError (Action standard)) : Report × Session :=
  match submission with
  | .error e =>
    let (output, s) := (s.emit (.failure Source.console.name e.describe)).takeOutput
    ({ outcome := some .failure, output }, s)
  | .ok action =>
    let s := { s with recorder := s.recorder.start s.clock }
    let (ending, cost, happenings, s) :=
      s.runAction s.observation.enabled s.observation.profiling action
    let s := happenings.foldl observe s
    let s := { s with recorder := s.recorder.finish s.clock ending.fault?.isNone cost }
    let (output, s) := s.takeOutput
    ({ outcome := (heard happenings).getLast?, cost, deepest := ending.depth, output,
       abort := ending.fault? }, s)

/-- The console as submissions use it. -/
def console : Source := Source.console.reportingTo listener

/-- Runs one command as the console. -/
def runCommand (s : Session) (input : String) : Report × Session :=
  s.execute ((Command.parse console.permission input).map fun chain => .command chain console)

/-- The body of a function for arguments given as a compound text. -/
def bodyFor (library : Library) (id : String) (arguments : Option String) :
    Except CommandError (Body standard) × Library :=
  match library.find? id with
  | none => (.error (.unknownFunction (Command.normalizeId id)), library)
  | some _ =>
    match arguments.mapM Record.ofText with
    | .error e => (.error e, library)
    | .ok record => library.instantiate id record

/-- Calls a function as the console. -/
def runFunction (s : Session) (id : String) (arguments : Option String) : Report × Session :=
  let (body, library) := bodyFor s.host.library id arguments
  (s.withLibrary library).execute (body.map fun body => .outerCall body console listener)

/-- Runs one command for any source, unobserved: how it ended, and every outcome heard. -/
def runAs (s : Session) (source : Source) (input : String) :
    Except CommandError (Ending × List Outcome) × Session :=
  match Command.parse source.permission input with
  | .error e => (.error e, s.emit (.failure source.name e.describe))
  | .ok chain =>
    let (ending, _, happenings, s) :=
      s.runAction false false (.command chain (source.reportingTo listener))
    (.ok (ending, heard happenings), s)

end Session

end Trampoline
