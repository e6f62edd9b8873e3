/-! A list entered at its end and left at its front.

The entries that came last stand apart, last one first, and are turned round when those in
front of them are gone. So what is done at either end is done in constant time in the mean.
The count is kept beside the entries, with the proof that it is right. -/
namespace Trampoline

structure Deque (α : Type) where
  /-- Oldest first. -/
  front : List α
  /-- Newest first. -/
  back : List α
  size : Nat
  size_eq : size = front.length + back.length

namespace Deque

variable {α : Type}

theorem size_nil : 0 = ([] : List α).length + ([] : List α).length := rfl

def empty : Deque α := ⟨[], [], 0, size_nil⟩

/-- The entries, oldest first. -/
def toList (d : Deque α) : List α := d.front ++ d.back.reverse

def pushBack (d : Deque α) (a : α) : Deque α :=
  ⟨d.front, a :: d.back, d.size + 1, by rw [List.length_cons, d.size_eq]; rfl⟩

/-- Without the oldest entry. -/
def popFront (d : Deque α) : Deque α :=
  match h : d.front with
  | _ :: front => ⟨front, d.back, d.size - 1, by rw [d.size_eq, h, List.length_cons]; omega⟩
  | [] => ⟨d.back.reverse.tail, [], d.size - 1, by
      rw [d.size_eq, h, List.length_tail, List.length_reverse, List.length_nil]; omega⟩

/-- The newest entry. -/
def back? (d : Deque α) : Option α :=
  match d.back with
  | a :: _ => some a
  | [] => d.front.getLast?

theorem length_toList (d : Deque α) : d.toList.length = d.size := by
  rw [toList, List.length_append, List.length_reverse, d.size_eq]

@[simp] theorem toList_pushBack (d : Deque α) (a : α) :
    (d.pushBack a).toList = d.toList ++ [a] := by
  rw [toList, toList, pushBack, List.reverse_cons, List.append_assoc]

@[simp] theorem toList_popFront (d : Deque α) : d.popFront.toList = d.toList.tail := by
  obtain ⟨front, back, size, hsize⟩ := d
  cases front with
  | cons a front => rfl
  | nil => exact List.append_nil _

@[simp] theorem size_popFront (d : Deque α) : d.popFront.size = d.size - 1 := by
  rw [← length_toList, toList_popFront, List.length_tail, length_toList]

end Deque

end Trampoline
