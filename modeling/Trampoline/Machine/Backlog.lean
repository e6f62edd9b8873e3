/-! A list that knows its length.

The machine compares the number of waiting entries with its limit at every push, and a line
that is put together of many is compared with the longest there may be at every part. So the
count is kept beside the entries, with the proof that it is right. -/
namespace Trampoline

structure Backlog (α : Type) where
  toList : List α
  size : Nat
  size_eq : size = toList.length

namespace Backlog

variable {α : Type}

def empty : Backlog α := ⟨[], 0, rfl⟩

/-- Puts one in front. -/
def push (b : Backlog α) (a : α) : Backlog α :=
  ⟨a :: b.toList, b.size + 1, by rw [List.length_cons, b.size_eq]⟩

/-- Takes the first one off. -/
def pop? (b : Backlog α) : Option (α × Backlog α) :=
  match h : b.toList with
  | [] => none
  | a :: rest => some (a, ⟨rest, b.size - 1, by rw [b.size_eq, h, List.length_cons, Nat.add_sub_cancel]⟩)

/-- Puts one after another in front. -/
def pushAll (b : Backlog α) (as : List α) : Backlog α :=
  ⟨as.reverseAux b.toList, as.length + b.size, by
    rw [List.reverseAux_eq, List.length_append, List.length_reverse, b.size_eq]⟩

/-- Without the first one. -/
def tail (b : Backlog α) : Backlog α :=
  ⟨b.toList.tail, b.size - 1, by rw [List.length_tail, b.size_eq]⟩

/-- `newest` holds its entries last one first; they go in front of `b` in the order they came. -/
def splice (newest b : Backlog α) : Backlog α :=
  ⟨newest.toList.reverseAux b.toList, newest.size + b.size, by
    rw [List.reverseAux_eq, List.length_append, List.length_reverse, newest.size_eq, b.size_eq]⟩

@[simp] theorem toList_empty : (empty : Backlog α).toList = [] := rfl

@[simp] theorem toList_push (b : Backlog α) (a : α) : (b.push a).toList = a :: b.toList := rfl

@[simp] theorem toList_pushAll (b : Backlog α) (as : List α) :
    (b.pushAll as).toList = as.reverse ++ b.toList :=
  List.reverseAux_eq ..

@[simp] theorem toList_tail (b : Backlog α) : b.tail.toList = b.toList.tail := rfl

@[simp] theorem toList_splice (newest b : Backlog α) :
    (newest.splice b).toList = newest.toList.reverse ++ b.toList :=
  List.reverseAux_eq ..

end Backlog

end Trampoline
