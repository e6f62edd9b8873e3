import Trampoline.Machine.Run

/-! Fan-out: queueing many items without filling the queue.

Scheduling a list never queues more than two entries. A list of three or more
queues its first item and a task for the others; the task, when its turn comes,
queues the next item and, behind it, a task for what is left.

What makes the entries of the items is given (`Factory`), and is asked only when an
item is queued: for most of them in the turn of such a task, when the world may be
another than it was when they were scheduled. -/
namespace Trampoline

inductive Task (α : Type) where
  | act (action : α)
  /-- The items that are still to be queued. -/
  | fan (items : List α)

namespace Task

variable {σ α β : Type}

def map (f : α → β) : Task α → Task β
  | .act a => .act (f a)
  | .fan items => .fan (items.map f)

/-- What makes the entry of an item that is to be queued in a frame. Where items of several kinds
are scheduled, the item tells which kind it is. -/
abbrev Factory (σ α : Type) := Frame → α → Work σ (Task α) (Entry (Task α))

/-- Items are actions themselves: their entries are made like any other. -/
def Factory.plain : Factory σ α := fun frame a => Work.entry frame (.act a)

/-- Makes the entry of an item and queues it. -/
def queueItem (make : Factory σ α) (frame : Frame) (a : α) : Work σ (Task α) Unit := do
  .stage (← make frame a) .done

/-- Queues items at once, all of them. -/
def queueAll (make : Factory σ α) (frame : Frame) (items : List α) : Work σ (Task α) Unit :=
  items.forM (queueItem make frame)

/-- Queues the next item, and what is left behind it. -/
def unfold (make : Factory σ α) (frame : Frame) : List α → Work σ (Task α) Unit
  | [] => .done ()
  | [a] => queueItem make frame a
  | a :: rest => do
    queueItem make frame a
    Work.enqueue frame (.fan rest)

/-- Queues items one after another, each to be finished before the next. -/
def schedule (make : Factory σ α) (frame : Frame) : List α → Work σ (Task α) Unit
  | [] => .done ()
  | [a] => queueItem make frame a
  | [a, b] => do
    queueItem make frame a
    queueItem make frame b
  | a :: rest => do
    queueItem make frame a
    Work.enqueue frame (.fan rest)

/-- What a task does, given what each action does and what makes the entries of items. -/
def meaning (make : Factory σ α) (mean : α → Frame → Work σ (Task α) Unit) :
    Task α → Frame → Work σ (Task α) Unit
  | .act a, frame => mean a frame
  | .fan items, frame => unfold make frame items

/-- The entries a task can lead to without any of its actions being run. -/
def weight (w : α → Nat) : Task α → Nat
  | .act a => w a
  | .fan items => items.foldr (fun a n => 1 + w a + n) 0

end Task

end Trampoline
