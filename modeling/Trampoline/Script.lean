import Trampoline.Submission

/-! Scripts: entries written out by hand.

A script is a list of instructions that one entry carries out in its frame. Beside
charging, queueing and returning it can open frames, call functions and give
commands, so every path through the machine can be reached and watched: each `log`
notes what the machine looks like at that moment.

A bench is a machine whose entries are scripts and standard actions side by side. -/
namespace Trampoline

open Command (standard)

inductive Instruction where
  | log (text : String)
  | charge (units : Nat)
  | queue (script : List Instruction)
  | schedule (scripts : List (List Instruction))
  | return (value : Int32)
  | fail
  | discard
  | fallthrough
  | abort (message : String)
  /-- Queues a script in a frame one deeper. -/
  | child (label : String) (shared : Bool) (script : List Instruction)
  /-- Runs a script in a frame of its own, below the entry being run. -/
  | isolated (label : String) (script : List Instruction)
  /-- The same, but discarded with the present frame. -/
  | isolatedHere (label : String) (script : List Instruction)
  | call (id : String) (arguments : Option String) (shared : Bool)
  /-- Gives a command as the console, or for the given number of copies of it. -/
  | command (text : String) (copies : Option Nat) (flags : Flags)

abbrev Script := List Instruction

namespace Script

/-- What a bench can queue. -/
inductive Act where
  | standard (action : Action standard)
  | script (script : Script)
  /-- Opens a frame that reports to `output` and runs a script in it. -/
  | isolate (script : Script) (output : Callback)

/-- What the entries of a bench do. -/
abbrev Doing : Type → Type := Work (Scene Host) (Task Act)

def note (text : String) : Doing Unit := Work.change (·.write (·.add (.note text)))

def logLine (text : String) (depth : Nat) (generation : UInt32) (pending cost : Nat) : String :=
  "log " ++ text ++ " depth=" ++ Numeral.text depth ++ " gen=" ++ Numeral.text generation.toNat ++
    " pending=" ++ Numeral.text pending ++ " cost=" ++ Numeral.text cost

/-- The body of a function for arguments given as a compound text. -/
def bodyFor (host : Host) (id : String) (arguments : Option String) :
    Except CommandError (Body standard) × Host :=
  match host.library.find? id with
  | none => (.error (.invalid ("no function " ++ id)), host)
  | some _ =>
    let record : Except CommandError (Option Record) := match arguments with
      | none => .ok none
      | some text => ((Cursor.ofText text).compound).map fun (r, _) => some r
    match record with
    | .error e => (.error e, host)
    | .ok record =>
      let (result, library) := host.library.instantiate id record
      (result, { host with library })

/-- The console with a callback of the given label. -/
def labelled (label : String) : Source := Source.console.reportingTo (.one label)

/-- Carries out one instruction in a frame. -/
def carryOut (frame : Frame) : Instruction → Doing Unit
  | .log text =>
    .generation frame.governor fun g => .pending fun p => .cost fun c =>
      note (logLine text frame.depth g p c)
  | .charge units => Work.pay units
  | .queue script => Work.enqueue frame (.act (.script script))
  | .schedule scripts => Task.schedule .plain frame (scripts.map .script)
  | .return value => Work.conclude frame (.ok value)
  | .fail => Work.conclude frame .failure
  | .discard => Work.drop frame.governor
  | .fallthrough => Work.enqueue frame (.act (.standard .fallthrough))
  | .abort message => .abort (.internal message)
  | .child label shared script =>
    let depth := Depth.below frame.depth
    let child (g : GovernorId) : Frame := ⟨depth, .one label, g⟩
    if shared then Work.enqueue (child frame.governor) (.act (.script script))
    else .govern depth fun g => Work.enqueue (child g) (.act (.script script))
  | .isolated label script =>
    .depth fun d => .govern d fun g =>
      Work.enqueue ⟨d, .empty, g⟩ (.act (.isolate script (.one label)))
  | .isolatedHere label script => Work.enqueue frame (.act (.isolate script (.one label)))
  | .call id arguments shared => do
    let result ← Work.act fun scene =>
      let (result, host) := bodyFor scene.host id arguments
      (result, { scene with host })
    match result with
    | .ok body =>
      Work.enqueue frame (.act (.standard (.call body (.one id) shared (labelled "caller"))))
    | .error e => note ("call rejected " ++ e.describe)
  | .command text copies flags =>
    let issuer := labelled "issuer"
    match Command.parse issuer.permission text with
    | .error e => note ("command rejected " ++ e.describe)
    | .ok chain =>
      match copies with
      | none => Work.enqueue frame (.act (.standard (.command chain issuer)))
      | some n =>
        let sources := (List.range n).map fun (i : Nat) => issuer.named ("s" ++ Numeral.text i)
        Work.enqueue frame (.act (.standard (.walk chain issuer sources flags)))

def perform (frame : Frame) (script : Script) : Doing Unit := script.forM (carryOut frame)

def meaning : Act → Frame → Doing Unit
  | .standard action, frame => (Command.dialect.meaning action frame).mapActions (Task.map .standard)
  | .script script, frame => perform frame script
  | .isolate script output, frame =>
    let depth := Depth.below frame.depth
    .govern depth fun g => perform ⟨depth, output, g⟩ script

mutual
/-- The entries an instruction leads to as long as nothing is charged for. -/
def instructionWeight : Instruction → Nat
  | .queue script => weight script
  | .schedule scripts => weights scripts
  | .fallthrough => 1
  | .child _ _ script => weight script
  | .isolated _ script => weight script
  | .isolatedHere _ script => weight script
  | .call .. => 1
  | .command text copies _ => 2 + text.length + 2 * copies.getD 1
  | _ => 0

/-- The entry of a script, and what it leads to. -/
def weight : List Instruction → Nat
  | [] => 1
  | i :: rest => instructionWeight i + weight rest

def weights : List (List Instruction) → Nat
  | [] => 0
  | script :: rest => 1 + weight script + weights rest
end

def Act.weight : Act → Nat
  | .standard action => action.weight
  | .script s => Script.weight s
  | .isolate s _ => Script.weight s

end Script

/-- A machine for scripts, and the governors that were given names. -/
structure Bench where
  machine : Machine (Scene Host) (Task Script.Act)
  named : List (String × GovernorId) := []

namespace Bench

/-- The governor of a name, made for the given depth at its first use. -/
def governorNamed (b : Bench) (name : String) (depth : Nat) : GovernorId × Bench :=
  match b.named.lookup name with
  | some g => (g, b)
  | none =>
    let (g, machine) := b.machine.govern depth
    (g, { b with machine, named := (name, g) :: b.named })

/-- The governor for a depth, or the one of a name. -/
def governorFor (b : Bench) (depth : Nat) (name : Option String) : GovernorId × Bench :=
  match name with
  | some name => b.governorNamed name depth
  | none =>
    let (g, machine) := b.machine.governorAt depth
    (g, { b with machine })

/-- Queues a script in a new frame; its governor is given back. -/
def queue (b : Bench) (script : Script) (depth : Nat) (name : Option String) (label : String) :
    GovernorId × Bench :=
  let (g, b) := b.governorFor depth name
  (g, { b with machine := b.machine.push ⟨depth, .one label, g⟩ (.act (.script script)) })

/-- Queues a command, if it can be parsed as its source. -/
def command (b : Bench) (input : String) (source : Source) (label : String) :
    Except CommandError Bench := do
  let chain ← Command.parse source.permission input
  return { b with machine := b.machine.submit (.one label) (.act (.standard (.command chain source))) }

/-- Queues a call, if the function has a body for the arguments. -/
def function (b : Bench) (id : String) (arguments : Option String) (source : Source)
    (label : String) : Except CommandError Unit × Bench :=
  let (result, host) := Script.bodyFor b.machine.world.host id arguments
  let machine := { b.machine with world := { b.machine.world with host } }
  match result with
  | .error e => (.error e, { b with machine })
  | .ok body =>
    (.ok (), { b with
      machine := machine.submit (.one label) (.act (.standard (.outerCall body source (.one label)))) })

/-- Queues a script in a frame of its own. -/
def isolated (b : Bench) (script : Script) (label : String) : Bench :=
  { b with machine := b.machine.submitApart (.act (.isolate script (.one label))) }

def charge (b : Bench) (units : Nat) : Except Fault Unit × Bench :=
  let (result, machine) := b.machine.charge units
  (result, { b with machine })

/-- Discards what is queued under the governor for a depth. -/
def discard (b : Bench) (depth : Nat) : Bench :=
  let (g, machine) := b.machine.governorAt depth
  { b with machine := machine.discard g }

def run (b : Bench) : Ending × Bench :=
  let m := b.machine
  let fuel := m.fuel (Task.weight Script.Act.weight) (Command.allowance m.limits m.world.host.library)
  let (ending, machine) := m.run (Task.meaning .plain Script.meaning) fuel
  (ending, { b with machine })

end Bench

end Trampoline
