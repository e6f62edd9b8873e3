import Trampoline.Proofs.Command.Upshot

/-! One turn of the loop.

An entry is an action or the rest of a fan-out. An action that is performed well
settles, and its items then wait in front of everything else (`perform_act`,
`queue_settle`); the rest of a fan-out only queues (`perform_fan`). -/
namespace Trampoline.Command

/-- What every task does. -/
abbrev taskMeaning : Task (Action standard) → Frame → Deed standard Host Unit :=
  Task.meaning .plain dialect.meaning

/-- A machine that was just made, with one submission. -/
def submitted (limits : Limits) (world : Scene Host) (callback : Callback)
    (action : Action standard) : Rig :=
  Machine.submit { limits, world } callback (.act action)

abbrev RigHistory := History (Scene Host) (Task (Action standard))

variable {m m₂ : Rig} {e : Entry (Task (Action standard))}
  {rest : List (Entry (Task (Action standard)))} {frame : Frame} {u : Upshot}

/-! ### The machine on which the items are queued -/

/-- The machine on which the items are queued. -/
def Upshot.ready (u : Upshot) (frame : Frame) (m : Rig) : Rig :=
  u.scope.opened frame ((u.standing.on m).discardTimes frame.governor u.ends)

theorem settle_of_no_fault (frame : Frame) (m : Rig) (hf : u.fault = none) :
    u.settle frame m =
      (.ok (), (u.ready frame m).pushAll (u.scope.frame frame m.governors.size) u.tasks) := by
  have hsize : ((u.standing.on m).discardTimes frame.governor u.ends).governors.size =
      m.governors.size := Machine.size_governors_discardTimes ..
  rw [← hsize]
  unfold Upshot.settle Upshot.ready
  rw [hf]

theorem ready_eq (u : Upshot) (frame : Frame) (m : Rig) :
    u.ready frame m = { u.standing.on m with governors := (u.ready frame m).governors } := by
  unfold Upshot.ready
  rw [Machine.discardTimes_eq]
  cases u.scope <;> rfl

theorem generation_opened (scope : Scope) (g : GovernorId) :
    (scope.opened frame m).generation g = m.generation g := by
  cases scope with
  | same => rfl
  | shared returns => rfl
  | own returns => exact Machine.generation_govern ..

/-- Of the governors there were, only the frame's own moves on. -/
theorem generation_ready (hg : frame.governor < m.governors.size)
    (hn : (m.generation frame.governor).toNat + u.ends < UInt32.size) (g : GovernorId) :
    ((u.ready frame m).generation g).toNat =
      (m.generation g).toNat + if g = frame.governor then u.ends else 0 := by
  unfold Upshot.ready
  rw [generation_opened]
  by_cases h : g = frame.governor
  · rw [if_pos h, h]
    exact Machine.toNat_generation_discardTimes (u.standing.on m) hg hn
  · rw [if_neg h, Nat.add_zero, Machine.generation_discardTimes_of_ne _ _ h]
    rfl

theorem size_governors_ready (u : Upshot) (frame : Frame) (m : Rig) :
    m.governors.size ≤ (u.ready frame m).governors.size := by
  have hsize := Machine.size_governors_discardTimes (u.standing.on m) frame.governor u.ends
  refine Nat.le_trans (Nat.le_of_eq hsize.symm) ?_
  unfold Upshot.ready
  cases u.scope with
  | same => exact Nat.le_refl _
  | shared returns => exact Nat.le_refl _
  | own returns => simp [Scope.opened, Machine.govern]

/-- The items' governor is there. -/
theorem governor_frame_lt (hg : frame.governor < m.governors.size) :
    (u.scope.frame frame m.governors.size).governor < (u.ready frame m).governors.size := by
  have hsize := Machine.size_governors_discardTimes (u.standing.on m) frame.governor u.ends
  have hle := size_governors_ready u frame m
  revert hle
  unfold Upshot.ready
  cases u.scope with
  | same => exact fun hle => Nat.lt_of_lt_of_le hg hle
  | shared returns => exact fun hle => Nat.lt_of_lt_of_le hg hle
  | own returns =>
    intro _
    simp only [Scope.frame, Scope.opened, Machine.govern, Array.size_push, hsize]
    exact Nat.lt_succ_self _

/-! ### The two kinds of turns -/

/-- An action that is performed well has settled. -/
theorem perform_act {a : Action standard} (ha : e.action = .act a)
    (hp : Machine.perform taskMeaning m e = (none, m₂)) :
    (upshot m.limits (levelOf e.frame) a (standingOf m)).fault = none ∧
      m₂ = ((upshot m.limits (levelOf e.frame) a (standingOf m)).settle e.frame m).2.splice := by
  obtain ⟨m₁, hx, -, rfl⟩ := Machine.perform_eq_none.mp hp
  rw [ha] at hx
  have hsettle := (meaning_yields a e.frame m).exec.symm.trans hx
  rw [hsettle]
  cases hf : (upshot m.limits (levelOf e.frame) a (standingOf m)).fault with
  | none => exact ⟨rfl, rfl⟩
  | some fault =>
    rw [Upshot.settle, hf] at hsettle
    cases hsettle

/-- The items of an action that settled wait in front, in their own frame. -/
theorem queue_settle (frame : Frame) (hf : u.fault = none) (hs : m.staged = .empty) :
    (u.settle frame m).2.splice.queue.toList =
      (u.scope.frame frame m.governors.size).entries
        ((u.ready frame m).generation (u.scope.frame frame m.governors.size).governor) u.tasks ++
          m.queue.toList := by
  have hstaged : (u.ready frame m).staged = .empty := by
    rw [ready_eq]
    exact hs
  have hqueue : (u.ready frame m).queue = m.queue := by
    rw [ready_eq]
    rfl
  rw [settle_of_no_fault frame m hf, Machine.queue_splice_pushAll _ _ _ hstaged, hqueue]

/-- What an action leaves is what its upshot says. -/
theorem standing_act {a : Action standard} (ha : e.action = .act a)
    (hp : Machine.perform taskMeaning (m.begin e rest) e = (none, m₂)) :
    standingOf m₂ = (upshot m.limits (levelOf e.frame) a (standingOf m)).standing := by
  obtain ⟨-, rfl⟩ := perform_act ha hp
  exact standing_settle _ e.frame (m.begin e rest)

theorem discards_turn (m : Rig) (rest : List (Entry (Task (Action standard))))
    {a : Action standard} (ha : e.action = .act a) (g : GovernorId) :
    (m.turn taskMeaning e rest).discards g =
      if g = e.frame.governor then (upshot m.limits (levelOf e.frame) a (standingOf m)).ends
      else 0 := by
  have h := (meaning_yields a e.frame (m.begin e rest)).discards g
  unfold Machine.turn
  rw [ha]
  exact h

/-- Unfolding a task queues, and does nothing else. -/
theorem perform_fan {items : List (Action standard)} (he : e.action = .fan items)
    (hp : Machine.perform taskMeaning (m.begin e rest) e = (none, m₂)) :
    m₂ = ((m.begin e rest).pushAll e.frame (Task.unfolded items)).splice := by
  obtain ⟨m₁, hx, -, rfl⟩ := Machine.perform_eq_none.mp hp
  rw [he] at hx
  cases (Task.exec_unfold e.frame items (m.begin e rest)).symm.trans hx
  rfl

theorem standing_fan {items : List (Action standard)} (he : e.action = .fan items)
    (hp : Machine.perform taskMeaning (m.begin e rest) e = (none, m₂)) :
    standingOf m₂ = standingOf m := by
  rw [perform_fan he hp, Machine.pushAll_eq]
  rfl

theorem discards_fan {items : List (Action standard)} (he : e.action = .fan items)
    (g : GovernorId) : (m.turn taskMeaning e rest).discards g = 0 := by
  unfold Machine.turn
  rw [he]
  match items with
  | [] => rfl
  | [_] => rfl
  | _ :: _ :: _ => rfl

/-! ### A submission to try things on -/

/-- A function that returns before its second line. -/
def answer : Body standard where
  id := "m:answer"
  lines := [
    ⟨"return 3", [], { input := "return 3", executable := some (.custom (.return (some 3))) }, []⟩,
    ⟨"say no", [], { input := "say no", executable := some (.command (.say "no")) }, []⟩]

/-- Calls the function for two sources. -/
def askTwice : Action standard :=
  .command ⟨"execute as a,b run function m:answer", [],
    { input := "as a,b", redirect := some (.modifier (.rename ["a", "b"])), forks := true },
    [{ input := "function m:answer", executable := some (.custom (.function "m:answer" none)) }]⟩
    { name := "console", permission := 4, callback := .one "asker" }

def answering : Scene Host := ⟨{ traced := true }, { library := [("m:answer", .plain answer)] }⟩

end Trampoline.Command
