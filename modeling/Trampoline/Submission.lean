import Trampoline.Command.Meaning

/-! Submitting commands and calls, and running them to the end.

A walk that is not charged for leads to at most one walk of a shorter chain, or to
one entry for each source it has; only charged steps can make more sources or
open a body. So the entries a run takes are bounded by the weight of what waits
and an allowance for each unit of the budget, and that is the fuel of a run. -/
namespace Trampoline

namespace Action

variable {V : Vocabulary}

/-- A command as a source gives it. -/
def command (chain : Chain V) (source : Source) : Action V := .walk chain source [source] {}

/-- A call from outside, with one callback for everything it returns. -/
def outerCall (body : Body V) (source : Source) (callback : Callback) : Action V :=
  .call body callback false source

/-- The entries an action leads to as long as nothing is charged for. -/
def weight : Action V → Nat
  | .walk chain _ sources _ => 2 + chain.after.length + 2 * sources.length
  | .execute .. => 1
  | .call .. => 1
  | .isolated .. => 2
  | .fallthrough => 1

end Action

namespace Machine

/-- Queues an action in a new frame at depth zero. -/
def submit {σ α : Type} (m : Machine σ α) (callback : Callback) (action : α) : Machine σ α :=
  let (g, m) := m.governorAt 0
  m.push ⟨0, callback, g⟩ action

/-- Queues an action in a frame that nothing else belongs to, at the depth of the entry run last. -/
def submitApart {σ α : Type} (m : Machine σ α) (action : α) : Machine σ α :=
  let (g, m) := m.govern m.depth
  m.push ⟨m.depth, .empty, g⟩ action

/-- The weight of everything that waits. -/
def weight {σ α : Type} (w : α → Nat) (m : Machine σ α) : Nat :=
  (m.queue.toList ++ m.staged.toList).foldr (fun e n => w e.action + n) 0

/-- Fuel for a run, given the weight of an action and the allowance for one unit of cost. -/
def fuel {σ α : Type} (w : α → Nat) (allowance : Nat) (m : Machine σ α) : Nat :=
  m.weight w + (m.limits.commands - m.cost) * allowance

end Machine

namespace Command

/-- The entries one charged step can add: sources up to the fork limit, or the lines of a body.
The large numeral is the left factor: multiplication unfolds along the right one. -/
def allowance (limits : Limits) (library : Library) : Nat :=
  2 * limits.forks + (5 + maxLineLength) * library.longest

/-- Runs everything that waits. -/
def run (m : Machine (Scene Host) (Task (Action standard))) :
    Ending × Machine (Scene Host) (Task (Action standard)) :=
  m.run (Task.meaning .plain dialect.meaning)
    (m.fuel (Task.weight Action.weight) (allowance m.limits m.world.host.library))

end Command

end Trampoline
