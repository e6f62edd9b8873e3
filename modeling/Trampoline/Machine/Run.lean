import Trampoline.Machine.State

/-! Running the machine.

A run takes entries off the queue until none is left. An entry that is no longer
alive is dropped. A run aborts when an entry's work does, or when the entry
queued more than the limit allows; everything that waited is then forgotten, and
the frame of the failing entry returns a failure.

The loop is given fuel, one unit for each entry it takes. A rig says what each
action does, and how much fuel surely suffices. -/
namespace Trampoline

/-- How a run ended. -/
inductive Ending where
  | finished (cost deepest : Nat)
  | aborted (fault : Fault)
  /-- The fuel ran out before the queue did. -/
  | unfinished
  deriving DecidableEq, Repr

namespace Machine

variable {σ α : Type} [Audience σ]

/-- Returns an outcome from a frame: its callback hears it, and what is queued under its governor
is discarded. -/
def conclude (m : Machine σ α) (frame : Frame) (outcome : Outcome) : Machine σ α :=
  { m with world := Audience.hear frame.returns outcome m.world }.discard frame.governor

def abort (m : Machine σ α) (frame : Frame) : Machine σ α :=
  { m with queue := .empty, staged := .empty, overflow := false }.conclude frame .failure

/-- The machine about to run an entry just taken off, with `queue` left. -/
def enter (m : Machine σ α) (frame : Frame) (queue : Backlog (Entry α)) : Machine σ α :=
  { m with queue, depth := frame.depth, deepest := max m.deepest frame.depth }

/-- Runs one live entry. The fault, if there is one, ends the run. -/
def perform (mean : α → Frame → Work σ α Unit) (m : Machine σ α) (e : Entry α) :
    Option Fault × Machine σ α :=
  match (mean e.action e.frame).exec m with
  | (.error fault, m) => (some fault, m.abort e.frame)
  | (.ok (), m) =>
    let m := m.splice
    if m.overflow then (some (.ofCeiling (.queueOverflow m.limits.queue)), m.abort e.frame)
    else (none, m)

def drain (mean : α → Frame → Work σ α Unit) : Nat → Machine σ α → Ending × Machine σ α
  | 0, m =>
    match m.queue.pop? with
    | none => (.finished m.cost m.deepest, m)
    | some _ => (.unfinished, m)
  | fuel + 1, m =>
    match m.queue.pop? with
    | none => (.finished m.cost m.deepest, m)
    | some (e, queue) =>
      if m.isLive e then
        match perform mean (m.enter e.frame queue) e with
        | (some fault, m) => (.aborted fault, m)
        | (none, m) => drain mean fuel m
      else drain mean fuel { m with queue }

/-- Runs everything that waits. -/
def run (mean : α → Frame → Work σ α Unit) (fuel : Nat) (m : Machine σ α) : Ending × Machine σ α :=
  drain mean fuel m.splice

end Machine

namespace Work

variable {σ α : Type} [Audience σ]

def hear (callback : Callback) (outcome : Outcome) : Work σ α Unit :=
  change (Audience.hear callback outcome)

/-- Returns an outcome from a frame. -/
def conclude (frame : Frame) (outcome : Outcome) : Work σ α Unit := do
  hear frame.returns outcome
  drop frame.governor

end Work

end Trampoline
