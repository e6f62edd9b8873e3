import Mathlib.Data.List.Forall2
import Trampoline.Proofs.Machine.History

/-! Two machines side by side.

Two machines are alike if they differ only in how their worlds look and in what their
entries carry, and there only as two given relations allow: the same entries wait in
the same frames, under the same governors, with the same budget spent. Whatever work
does to the machine itself, it does to both (`Alike.push`, `Alike.discard` and the
lemmas after them). If each action keeps two machines alike, they take the same turns
and end alike (`drain_alike`). -/
namespace Trampoline

namespace Machine

variable {σ α : Type}

/-- Entries that wait in one frame, under one stamp. -/
structure EntriesAlike (A : α → α → Prop) (e e' : Entry α) : Prop where
  frame : e.frame = e'.frame
  stamp : e.stamp = e'.stamp
  action : A e.action e'.action

structure Alike (R : σ → σ → Prop) (A : α → α → Prop) (m m' : Machine σ α) : Prop where
  limits : m.limits = m'.limits
  world : R m.world m'.world
  cost : m.cost = m'.cost
  queue : List.Forall₂ (EntriesAlike A) m.queue.toList m'.queue.toList
  staged : List.Forall₂ (EntriesAlike A) m.staged.toList m'.staged.toList
  governors : m.governors = m'.governors
  byDepth : m.byDepth = m'.byDepth
  overflow : m.overflow = m'.overflow
  depth : m.depth = m'.depth
  deepest : m.deepest = m'.deepest

variable {R : σ → σ → Prop} {A : α → α → Prop} {m m' : Machine σ α}

namespace Alike

theorem generation (h : Alike R A m m') (g : GovernorId) : m.generation g = m'.generation g := by
  unfold Machine.generation
  rw [h.governors]

theorem isLive (h : Alike R A m m') {e e' : Entry α} (he : EntriesAlike A e e') :
    m.isLive e = m'.isLive e' := by
  unfold Machine.isLive
  rw [he.frame, he.stamp, h.generation]

theorem push (h : Alike R A m m') (frame : Frame) {action action' : α} (ha : A action action') :
    Alike R A (m.push frame action) (m'.push frame action') :=
  { h with
    staged := .cons ⟨rfl, h.generation frame.governor, ha⟩ h.staged
    overflow := by
      simp only [Machine.push, Machine.stage, h.overflow, h.limits, Backlog.size_eq, Backlog.toList_push,
        List.length_cons, h.queue.length_eq, h.staged.length_eq] }

theorem pushAll (h : Alike R A m m') (frame : Frame) {actions actions' : List α}
    (ha : List.Forall₂ A actions actions') :
    Alike R A (m.pushAll frame actions) (m'.pushAll frame actions') := by
  induction ha generalizing m m' with
  | nil => exact h
  | cons ha _ ih => exact ih (h.push frame ha)

theorem discard (h : Alike R A m m') (g : GovernorId) : Alike R A (m.discard g) (m'.discard g) :=
  { h with governors := congrArg (·.modify g Governor.discard) h.governors }

theorem discardTimes (h : Alike R A m m') (g : GovernorId) (n : Nat) :
    Alike R A (m.discardTimes g n) (m'.discardTimes g n) := by
  induction n generalizing m m' with
  | zero => exact h
  | succ n ih => exact ih (h.discard g)

theorem govern (h : Alike R A m m') (depth : Nat) :
    (m.govern depth).1 = (m'.govern depth).1 ∧ Alike R A (m.govern depth).2 (m'.govern depth).2 :=
  ⟨congrArg Array.size h.governors,
    { h with governors := congrArg (·.push ⟨depth, 0⟩) h.governors }⟩

theorem governorAt (h : Alike R A m m') (depth : Nat) :
    (m.governorAt depth).1 = (m'.governorAt depth).1 ∧
      Alike R A (m.governorAt depth).2 (m'.governorAt depth).2 := by
  obtain ⟨hsame, hgoverned⟩ := h.govern depth
  unfold Machine.governorAt
  rw [← h.byDepth]
  cases m.byDepth.lookup depth with
  | some g => exact ⟨rfl, h⟩
  | none =>
    exact ⟨hsame, { hgoverned with
      byDepth := congrArg₂ (fun g rest => (depth, g) :: rest) hsame h.byDepth }⟩

theorem splice (h : Alike R A m m') : Alike R A m.splice m'.splice :=
  { h with
    queue := by
      rw [Machine.splice, Machine.splice, Backlog.toList_splice, Backlog.toList_splice]
      exact List.rel_append (List.forall₂_reverse_iff.mpr h.staged) h.queue
    staged := .nil }

theorem on (h : Alike R A m m') {world world' : σ} (hworld : R world world') {cost cost' : Nat}
    (hcost : cost = cost') : Alike R A { m with world, cost } { m' with world := world', cost := cost' } :=
  { h with world := hworld, cost := hcost }

theorem without (h : Alike R A m m') {rest rest' : List (Entry α)}
    (hrest : List.Forall₂ (EntriesAlike A) rest rest') :
    Alike R A (m.without rest) (m'.without rest') :=
  { h with queue := hrest }

theorem begin (h : Alike R A m m') {e e' : Entry α} (he : EntriesAlike A e e')
    {rest rest' : List (Entry α)} (hrest : List.Forall₂ (EntriesAlike A) rest rest') :
    Alike R A (m.begin e rest) (m'.begin e' rest') :=
  { h with
    queue := hrest
    depth := congrArg Frame.depth he.frame
    deepest := congrArg₂ max h.deepest (congrArg Frame.depth he.frame) }

theorem abort [Audience σ] (h : Alike R A m m') (frame : Frame)
    (hhear : ∀ callback outcome world world', R world world' →
      R (Audience.hear callback outcome world) (Audience.hear callback outcome world')) :
    Alike R A (m.abort frame) (m'.abort frame) :=
  { h with
    world := hhear _ _ _ _ h.world
    queue := .nil
    staged := .nil
    governors := congrArg (·.modify frame.governor Governor.discard) h.governors
    overflow := rfl }

end Alike

/-- Outcomes and actions keep machines alike. -/
structure Lockstep [Audience σ] (R : σ → σ → Prop) (A : α → α → Prop)
    (mean : α → Frame → Work σ α Unit) : Prop where
  hear : ∀ callback outcome world world', R world world' →
    R (Audience.hear callback outcome world) (Audience.hear callback outcome world')
  step : ∀ m m' action action' frame, Alike R A m m' → A action action' →
    ((mean action frame).exec m).1 = ((mean action' frame).exec m').1 ∧
      Alike R A ((mean action frame).exec m).2 ((mean action' frame).exec m').2

variable [Audience σ] {mean : α → Frame → Work σ α Unit}

theorem perform_alike (hmean : Lockstep R A mean) (h : Alike R A m m') {e e' : Entry α}
    (he : EntriesAlike A e e') :
    (perform mean m e).1 = (perform mean m' e').1 ∧
      Alike R A (perform mean m e).2 (perform mean m' e').2 := by
  obtain ⟨hresult, halike⟩ := hmean.step m m' _ _ e'.frame h he.action
  unfold perform
  rw [he.frame]
  generalize (mean e.action e'.frame).exec m = left at hresult halike
  generalize (mean e'.action e'.frame).exec m' = right at hresult halike
  obtain ⟨result, m⟩ := left
  obtain ⟨result', m'⟩ := right
  cases hresult
  match result with
  | .error fault => exact ⟨rfl, halike.abort e'.frame hmean.hear⟩
  | .ok () =>
    have hspliced := halike.splice
    simp only
    rw [← hspliced.overflow, ← hspliced.limits]
    split
    · exact ⟨rfl, hspliced.abort e'.frame hmean.hear⟩
    · exact ⟨rfl, hspliced⟩

/-- **Machines that are alike take the same turns and end alike.** -/
theorem drain_alike (hmean : Lockstep R A mean) (fuel : Nat) (h : Alike R A m m') :
    (drain mean fuel m).1 = (drain mean fuel m').1 ∧
      Alike R A (drain mean fuel m).2 (drain mean fuel m').2 := by
  have hqueue := h.queue
  -- the queues are taken apart together, so that entries that are alike come up together
  generalize hleft : m.queue.toList = left at hqueue
  generalize hright : m'.queue.toList = right at hqueue
  induction fuel generalizing m m' left right with
  | zero =>
    cases hqueue with
    | nil =>
      rw [drain_of_nil hleft, drain_of_nil hright, h.cost, h.deepest]
      exact ⟨rfl, h⟩
    | cons he hrest =>
      rw [drain_zero hleft, drain_zero hright]
      exact ⟨rfl, h⟩
  | succ fuel ih =>
    cases hqueue with
    | nil =>
      rw [drain_of_nil hleft, drain_of_nil hright, h.cost, h.deepest]
      exact ⟨rfl, h⟩
    | @cons e e' rest rest' he hrest =>
      have hlive := h.isLive he
      cases hl : m.isLive e with
      | false =>
        rw [drain_of_dead hleft hl, drain_of_dead hright (hlive ▸ hl)]
        exact ih (h.without hrest) rest rfl rest' rfl hrest
      | true =>
        rw [drain_of_live hleft hl, drain_of_live hright (hlive ▸ hl)]
        obtain ⟨hfault, halike⟩ := perform_alike hmean (h.begin he hrest) he
        generalize perform mean (m.begin e rest) e = after at hfault halike
        generalize perform mean (m'.begin e' rest') e' = after' at hfault halike
        obtain ⟨fault, m⟩ := after
        obtain ⟨fault', m'⟩ := after'
        cases hfault
        cases fault with
        | some fault => exact ⟨rfl, halike⟩
        | none => exact ih halike _ rfl _ rfl halike.queue

end Machine

end Trampoline
