import Trampoline.Deque
import Trampoline.Trace.Record

/-! A bounded history of trace records.

A buffer numbers the records it is given and holds the newest of them, as many as
its capacity: when it is full, the oldest falls off the front. Numbers are never used
twice, also when the buffer was emptied or can hold nothing. -/
namespace Trampoline.Trace

structure Buffer where
  capacity : Nat
  /-- The number of the next record. -/
  next : Nat
  held : Deque Record
  size_le : held.size ≤ capacity

namespace Buffer

/-- A buffer that was given nothing yet. -/
def ofCapacity (capacity : Nat) : Buffer := ⟨capacity, 0, .empty, Nat.zero_le _⟩

/-- The records, without the oldest where no other would fit. -/
def evict (b : Buffer) : Deque Record :=
  if b.held.size == b.capacity then b.held.popFront else b.held

theorem size_evict_lt (b : Buffer) (hroom : 0 < b.capacity) : b.evict.size < b.capacity := by
  have hle := b.size_le
  unfold evict
  split
  · rw [Deque.size_popFront]
    omega
  · next hfull =>
    have hfull : b.held.size ≠ b.capacity := fun h => hfull (beq_iff_eq.mpr h)
    omega

/-- Stores an event; the number it was given comes back. -/
def push (b : Buffer) (run timestamp : Nat) (event : Event) : Nat × Buffer :=
  (b.next,
    if hroom : 0 < b.capacity then
      ⟨b.capacity, b.next + 1, b.evict.pushBack ⟨b.next, run, timestamp, event⟩,
        b.size_evict_lt hroom⟩
    else { b with next := b.next + 1 })

/-- The records held, oldest first. -/
def records (b : Buffer) : List Record := b.held.toList

def size (b : Buffer) : Nat := b.held.size

/-- Drops every record. -/
def clear (b : Buffer) : Buffer := { b with held := .empty, size_le := Nat.zero_le _ }

/-- The record stored last, if it is held. -/
def last? (b : Buffer) : Option Record := b.held.back?

/-- The records held of one run, oldest first. -/
def ofRun (b : Buffer) (run : Nat) : List Record := b.records.filter (·.run == run)

@[simp] theorem records_ofCapacity (capacity : Nat) : (ofCapacity capacity).records = [] := rfl

@[simp] theorem records_clear (b : Buffer) : b.clear.records = [] := rfl

theorem size_eq (b : Buffer) : b.size = b.records.length := b.held.length_toList.symm

/-- One more record, and the oldest dropped where no other fits. -/
theorem records_push (b : Buffer) (run timestamp : Nat) (event : Event) :
    (b.push run timestamp event).2.records =
      (b.records ++ [(⟨b.next, run, timestamp, event⟩ : Record)]).drop
        (b.records.length + 1 - b.capacity) := by
  have hle : b.size ≤ b.capacity := b.size_le
  rw [← size_eq]
  unfold push
  dsimp only
  split
  · next hroom =>
    rw [records, Deque.toList_pushBack, evict]
    split
    · next hfull =>
      -- A full buffer with any room holds a record, so the one dropped is not the new one.
      have hfull : b.size = b.capacity := beq_iff_eq.mp hfull
      have hone : b.size + 1 - b.capacity = 1 := by omega
      have hlong : 1 ≤ b.records.length := by
        rw [← size_eq]
        omega
      rw [hone, List.drop_append_of_le_length hlong, Deque.toList_popFront, List.drop_one, records]
    · next hfull =>
      have hfull : b.size ≠ b.capacity := fun h => hfull (beq_iff_eq.mpr h)
      have hnone : b.size + 1 - b.capacity = 0 := by omega
      rw [hnone, List.drop_zero, records]
  · have hzero : b.size = 0 := by omega
    have hempty : b.records = [] := List.eq_nil_of_length_eq_zero (b.size_eq ▸ hzero)
    have hone : b.size + 1 - b.capacity = 1 := by omega
    rw [hempty, hone]
    exact hempty

theorem next_push (b : Buffer) (run timestamp : Nat) (event : Event) :
    (b.push run timestamp event).2.next = b.next + 1 := by
  unfold push
  dsimp only
  split <;> rfl

theorem capacity_push (b : Buffer) (run timestamp : Nat) (event : Event) :
    (b.push run timestamp event).2.capacity = b.capacity := by
  unfold push
  dsimp only
  split <;> rfl

end Buffer

end Trampoline.Trace
