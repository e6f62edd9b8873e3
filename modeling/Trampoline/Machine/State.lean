import Trampoline.Machine.Backlog
import Trampoline.Machine.Work

/-! The machine: entries waiting to be run, governors, and a budget.

Entries queued while one entry runs are staged, and go to the front of the queue
in the order they were queued once that entry is done. So what an entry spawns is
finished before anything that waited already, and nothing here ever recurses.

`Work.exec` is the meaning of each operation on the machine. -/
namespace Trampoline

/-- The ceilings of a run. -/
structure Limits where
  commands : Nat := 65536
  forks : Nat := 65536
  queue : Nat := 65536
  deriving DecidableEq, Repr

/-- Something in the world hears outcomes. -/
class Audience (σ : Type) where
  hear : Callback → Outcome → σ → σ

structure Machine (σ α : Type) where
  limits : Limits
  world : σ
  cost : Nat := 0
  queue : Backlog (Entry α) := .empty
  /-- Entries queued by the step under way, newest first. -/
  staged : Backlog (Entry α) := .empty
  governors : Array Governor := #[]
  /-- The governors that stand for a depth, by depth. -/
  byDepth : List (Nat × GovernorId) := []
  /-- Whether a push went past the queue limit since the last run ended. -/
  overflow : Bool := false
  /-- The depth of the entry run last. -/
  depth : Nat := 0
  deepest : Nat := 0

namespace Machine

variable {σ α β : Type}

def pending (m : Machine σ α) : Nat := m.queue.size + m.staged.size

/-- A governor's generation; a governor that was never made is at its first. -/
def generation (m : Machine σ α) (g : GovernorId) : UInt32 :=
  match m.governors[g]? with
  | some governor => governor.generation
  | none => 0

def isLive (m : Machine σ α) (e : Entry α) : Bool := m.generation e.frame.governor == e.stamp

/-- An entry made now. -/
def entry (m : Machine σ α) (frame : Frame) (action : α) : Entry α :=
  ⟨frame, m.generation frame.governor, action⟩

/-- Queues an entry, whenever it was made. -/
def stage (m : Machine σ α) (e : Entry α) : Machine σ α :=
  let staged := m.staged.push e
  { m with staged, overflow := m.overflow || decide (m.limits.queue < m.queue.size + staged.size) }

/-- Makes an entry and queues it. -/
def push (m : Machine σ α) (frame : Frame) (action : α) : Machine σ α :=
  m.stage (m.entry frame action)

/-- Moves the staged entries to the front of the queue. -/
def splice (m : Machine σ α) : Machine σ α :=
  { m with queue := m.staged.splice m.queue, staged := .empty }

/-- What is left of the budget. -/
def room (m : Machine σ α) : Nat := m.limits.commands - m.cost

/-- Charges units of cost one after another. The first that finds the budget spent is the fault, and
then the whole budget is spent. -/
def charge (m : Machine σ α) (units : Nat) : Except Fault Unit × Machine σ α :=
  (if units ≤ m.room then .ok () else .error (.ofCeiling (.commandCost m.limits.commands)),
    { m with cost := m.cost + min units m.room })

/-- The cost never passes the budget. -/
theorem charge_within (m : Machine σ α) (units : Nat) (h : m.cost ≤ m.limits.commands) :
    (m.charge units).2.cost ≤ m.limits.commands := by
  simp only [charge, room]
  omega

def discard (m : Machine σ α) (g : GovernorId) : Machine σ α :=
  { m with governors := m.governors.modify g Governor.discard }

def govern (m : Machine σ α) (depth : Nat) : GovernorId × Machine σ α :=
  (m.governors.size, { m with governors := m.governors.push ⟨depth, 0⟩ })

/-- The governor that stands for a depth, made at its first use. -/
def governorAt (m : Machine σ α) (depth : Nat) : GovernorId × Machine σ α :=
  match m.byDepth.lookup depth with
  | some g => (g, m)
  | none =>
    let (g, m) := m.govern depth
    (g, { m with byDepth := (depth, g) :: m.byDepth })

end Machine

namespace Work

variable {σ α β : Type}

/-- Runs the operations on a machine, up to the end of the work or its abort. -/
def exec : Work σ α β → Machine σ α → Except Fault β × Machine σ α
  | .done b, m => (.ok b, m)
  | .abort fault, m => (.error fault, m)
  | .charge units next, m =>
    let (result, m) := m.charge units
    (next result).exec m
  | .stage e next, m => (next ()).exec (m.stage e)
  | .discard g next, m => (next ()).exec (m.discard g)
  | .govern d next, m =>
    let (g, m) := m.govern d
    (next g).exec m
  | .update change next, m => (next ()).exec { m with world := change m.world }
  | .observe next, m => (next m.world).exec m
  | .generation g next, m => (next (m.generation g)).exec m
  | .depth next, m => (next m.depth).exec m
  | .cost next, m => (next m.cost).exec m
  | .forkLimit next, m => (next m.limits.forks).exec m
  | .pending next, m => (next m.pending).exec m

end Work

end Trampoline
