import Trampoline.Fault
import Trampoline.Machine.Frame

/-! What an entry does when it is run: a tree of operations on the machine.

Each node is one operation, followed by what happens next for each answer the
operation can give. An entry cannot touch the machine in any other way, so a law
proved for every tree holds for every entry, whatever it does. `σ` is the world
the entries act on, `α` the actions they can queue, and `β` what the work yields.

Entries are made and queued apart. Making one (`entry`) reads the generation it is
stamped with and changes nothing; a ready one can be kept, in the world or in
another action, and be queued at any later time (`stage`). Most are queued where
they are made (`queue`).

Work composes like any sequential computation (`bind`), and `ensuring` adds a last
step that is taken also when the work aborts. -/
namespace Trampoline

inductive Work (σ α β : Type) where
  | done (result : β)
  /-- Ends the whole run. -/
  | abort (fault : Fault)
  /-- Charges units of cost; the answer is the fault if the budget does not cover them. -/
  | charge (units : Nat) (next : Except Fault Unit → Work σ α β)
  /-- Queues a ready entry. -/
  | stage (entry : Entry α) (next : Unit → Work σ α β)
  /-- Discards the work queued under a governor. -/
  | discard (governor : GovernorId) (next : Unit → Work σ α β)
  /-- Makes a new governor. -/
  | govern (depth : Nat) (next : GovernorId → Work σ α β)
  | update (change : σ → σ) (next : Unit → Work σ α β)
  | observe (next : σ → Work σ α β)
  | generation (governor : GovernorId) (next : UInt32 → Work σ α β)
  /-- The depth of the entry being run. -/
  | depth (next : Nat → Work σ α β)
  | cost (next : Nat → Work σ α β)
  | forkLimit (next : Nat → Work σ α β)
  | pending (next : Nat → Work σ α β)

namespace Work

variable {σ α β γ : Type}

def bind (w : Work σ α β) (f : β → Work σ α γ) : Work σ α γ :=
  match w with
  | .done b => f b
  | .abort fault => .abort fault
  | .charge units next => .charge units fun r => (next r).bind f
  | .stage e next => .stage e fun u => (next u).bind f
  | .discard g next => .discard g fun u => (next u).bind f
  | .govern d next => .govern d fun g => (next g).bind f
  | .update change next => .update change fun u => (next u).bind f
  | .observe next => .observe fun s => (next s).bind f
  | .generation g next => .generation g fun n => (next n).bind f
  | .depth next => .depth fun n => (next n).bind f
  | .cost next => .cost fun n => (next n).bind f
  | .forkLimit next => .forkLimit fun n => (next n).bind f
  | .pending next => .pending fun n => (next n).bind f

instance : Monad (Work σ α) where
  pure := .done
  bind := bind

theorem bind_assoc {δ : Type} (w : Work σ α β) (f : β → Work σ α γ) (g : γ → Work σ α δ) :
    bind (bind w f) g = bind w fun b => bind (f b) g := by
  induction w with
  | done b => rfl
  | abort fault => rfl
  | charge units next ih => exact congrArg (Work.charge units) (funext ih)
  | stage e next ih => exact congrArg (Work.stage e) (funext ih)
  | discard h next ih => exact congrArg (Work.discard h) (funext ih)
  | govern d next ih => exact congrArg (Work.govern d) (funext ih)
  | update change next ih => exact congrArg (Work.update change) (funext ih)
  | observe next ih => exact congrArg Work.observe (funext ih)
  | generation h next ih => exact congrArg (Work.generation h) (funext ih)
  | depth next ih => exact congrArg Work.depth (funext ih)
  | cost next ih => exact congrArg Work.cost (funext ih)
  | forkLimit next ih => exact congrArg Work.forkLimit (funext ih)
  | pending next ih => exact congrArg Work.pending (funext ih)

/-! ### Single operations -/

/-- Charges units and aborts if the budget does not cover them. -/
def pay (units : Nat) : Work σ α Unit :=
  .charge units fun
    | .ok () => .done ()
    | .error fault => .abort fault

/-- Makes an entry, stamped with the generation that its governor is at. -/
def entry (frame : Frame) (action : α) : Work σ α (Entry α) :=
  .generation frame.governor fun stamp => .done ⟨frame, stamp, action⟩

/-- Makes an entry and queues it. -/
def queue (frame : Frame) (action : α) (next : Unit → Work σ α β) : Work σ α β :=
  .generation frame.governor fun stamp => .stage ⟨frame, stamp, action⟩ next

def enqueue (frame : Frame) (action : α) : Work σ α Unit := .queue frame action .done

def drop (g : GovernorId) : Work σ α Unit := .discard g .done

def change (f : σ → σ) : Work σ α Unit := .update f .done

/-- A step on the world that also gives an answer. -/
def act (f : σ → β × σ) : Work σ α β :=
  .observe fun s =>
    let (b, s) := f s
    .update (fun _ => s) fun _ => .done b

/-- The same work with a last step on the world, taken whether it ends well or aborts. -/
def ensuring (last : σ → σ) : Work σ α β → Work σ α β
  | .done b => .update last fun _ => .done b
  | .abort fault => .update last fun _ => .abort fault
  | .charge units next => .charge units fun r => (next r).ensuring last
  | .stage e next => .stage e fun u => (next u).ensuring last
  | .discard g next => .discard g fun u => (next u).ensuring last
  | .govern d next => .govern d fun g => (next g).ensuring last
  | .update f next => .update f fun u => (next u).ensuring last
  | .observe next => .observe fun s => (next s).ensuring last
  | .generation g next => .generation g fun n => (next n).ensuring last
  | .depth next => .depth fun n => (next n).ensuring last
  | .cost next => .cost fun n => (next n).ensuring last
  | .forkLimit next => .forkLimit fun n => (next n).ensuring last
  | .pending next => .pending fun n => (next n).ensuring last

/-- The same work with its actions seen as actions of a larger kind. -/
def mapActions {α' : Type} (f : α → α') : Work σ α β → Work σ α' β
  | .done b => .done b
  | .abort fault => .abort fault
  | .charge units next => .charge units fun r => (next r).mapActions f
  | .stage e next => .stage (e.map f) fun u => (next u).mapActions f
  | .discard g next => .discard g fun u => (next u).mapActions f
  | .govern d next => .govern d fun g => (next g).mapActions f
  | .update c next => .update c fun u => (next u).mapActions f
  | .observe next => .observe fun s => (next s).mapActions f
  | .generation g next => .generation g fun n => (next n).mapActions f
  | .depth next => .depth fun n => (next n).mapActions f
  | .cost next => .cost fun n => (next n).mapActions f
  | .forkLimit next => .forkLimit fun n => (next n).mapActions f
  | .pending next => .pending fun n => (next n).mapActions f

end Work

end Trampoline
