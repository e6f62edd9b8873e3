import Trampoline.Callback
import Trampoline.Depth

/-! Frames and their governors.

A frame is one level of a call: its depth, the callback that hears what the frame
returns, and the governor of the work queued in it. Several frames can share a
governor. Discarding a governor's work only moves its generation on: an entry is
stamped with the generation it was made under, and is alive while the two agree.
The generation is a 32-bit counter and wraps around. -/
namespace Trampoline

/-- A governor's place in the table of governors. -/
abbrev GovernorId := Nat

structure Governor where
  depth : Nat
  generation : UInt32 := 0
  deriving DecidableEq, Repr

def Governor.discard (g : Governor) : Governor := { g with generation := g.generation + 1 }

structure Frame where
  depth : Nat
  returns : Callback
  governor : GovernorId
  deriving DecidableEq, Repr

/-- An action in a frame, ready to be queued. -/
structure Entry (α : Type) where
  frame : Frame
  /-- The governor's generation when the entry was made. -/
  stamp : UInt32
  action : α

def Entry.map {α β : Type} (f : α → β) (e : Entry α) : Entry β := ⟨e.frame, e.stamp, f e.action⟩

end Trampoline
