import Trampoline.Machine.Fanout

/-! What the operations do to the machine.

A backlog is its list (`Backlog.ext_toList`), work that is done one after another
runs one after another (`exec_bind`, `exec_ensuring`), and scheduling queues at
most two tasks (`exec_schedule`, `exec_unfold`). A fact about the machine that
every operation keeps is kept by all work (`exec_keeps`); so work changes neither
the limits nor the queue, it only stages. -/
namespace Trampoline

namespace Backlog

variable {α : Type}

theorem ext_toList {a b : Backlog α} (h : a.toList = b.toList) : a = b := by
  obtain ⟨as, n, hn⟩ := a
  obtain ⟨bs, k, hk⟩ := b
  simp only at h hn hk
  subst h hn hk
  rfl

theorem ofList_size (as : List α) : as.length = as.length := rfl

def ofList (as : List α) : Backlog α := ⟨as, as.length, ofList_size as⟩

@[simp] theorem toList_ofList (as : List α) : (ofList as).toList = as := rfl

@[simp] theorem size_ofList (as : List α) : (ofList as).size = as.length := rfl

@[simp] theorem size_push (b : Backlog α) (a : α) : (b.push a).size = b.size + 1 := rfl

theorem ofList_toList (b : Backlog α) : ofList b.toList = b := ext_toList rfl

theorem eq_empty {b : Backlog α} (h : b.toList = []) : b = empty := ext_toList h

theorem pop?_of_nil {b : Backlog α} (h : b.toList = []) : b.pop? = none := by
  rw [eq_empty h]
  rfl

theorem pop?_of_cons {b : Backlog α} {a : α} {rest : List α} (h : b.toList = a :: rest) :
    b.pop? = some (a, ofList rest) := by
  have hb : b = ofList (a :: rest) := ext_toList h
  subst hb
  rfl

theorem splice_empty (b : Backlog α) : empty.splice b = b := ext_toList rfl

end Backlog

/-- Entries of one frame, stamped alike. -/
def Frame.entries {α : Type} (frame : Frame) (stamp : UInt32) (actions : List α) : List (Entry α) :=
  actions.map (⟨frame, stamp, ·⟩)

theorem Frame.mem_entries {α : Type} {frame : Frame} {stamp : UInt32} {actions : List α}
    {e : Entry α} (he : e ∈ frame.entries stamp actions) : e.frame = frame ∧ e.stamp = stamp := by
  obtain ⟨a, -, rfl⟩ := List.mem_map.mp he
  exact ⟨rfl, rfl⟩

namespace Machine

variable {σ α : Type}

/-- Queues actions in one frame, one after another. -/
def pushAll (m : Machine σ α) (frame : Frame) (actions : List α) : Machine σ α :=
  actions.foldl (fun m action => m.push frame action) m

@[simp] theorem pushAll_cons (m : Machine σ α) (frame : Frame) (a : α) (as : List α) :
    m.pushAll frame (a :: as) = (m.push frame a).pushAll frame as := rfl

theorem pushAll_append (m : Machine σ α) (frame : Frame) (as bs : List α) :
    m.pushAll frame (as ++ bs) = (m.pushAll frame as).pushAll frame bs :=
  List.foldl_append

/-- Discards the work of one governor several times. -/
def discardTimes (m : Machine σ α) (g : GovernorId) : Nat → Machine σ α
  | 0 => m
  | n + 1 => (m.discard g).discardTimes g n

theorem discardTimes_add (m : Machine σ α) (g : GovernorId) (n k : Nat) :
    m.discardTimes g (n + k) = (m.discardTimes g n).discardTimes g k := by
  induction n generalizing m with
  | zero => rw [Nat.zero_add, discardTimes]
  | succ n ih =>
    rw [Nat.succ_add, discardTimes, discardTimes]
    exact ih (m.discard g)

/-- Queueing actions stages their entries, all with one stamp. -/
theorem pushAll_eq (m : Machine σ α) (frame : Frame) (actions : List α) :
    m.pushAll frame actions =
      { m with
        staged := .ofList ((frame.entries (m.generation frame.governor) actions).reverse ++
          m.staged.toList)
        overflow := (m.pushAll frame actions).overflow } := by
  induction actions generalizing m with
  | nil => exact congrArg (fun staged => { m with staged }) (Backlog.ofList_toList m.staged).symm
  | cons a rest ih =>
    have hstaged : (frame.entries ((m.push frame a).generation frame.governor) rest).reverse ++
        (m.push frame a).staged.toList =
          (frame.entries (m.generation frame.governor) (a :: rest)).reverse ++ m.staged.toList := by
      simp only [Frame.entries, List.map_cons, List.reverse_cons, List.append_assoc,
        List.singleton_append]
      rfl
    rw [← hstaged, pushAll_cons, ih]
    rfl

@[simp] theorem limits_pushAll (m : Machine σ α) (frame : Frame) (actions : List α) :
    (m.pushAll frame actions).limits = m.limits := by
  rw [pushAll_eq]

@[simp] theorem governors_pushAll (m : Machine σ α) (frame : Frame) (actions : List α) :
    (m.pushAll frame actions).governors = m.governors := by
  rw [pushAll_eq]

@[simp] theorem generation_pushAll (m : Machine σ α) (frame : Frame) (actions : List α)
    (g : GovernorId) : (m.pushAll frame actions).generation g = m.generation g := by
  unfold generation
  rw [governors_pushAll]

/-- What was queued in this step goes in front. -/
theorem queue_splice_pushAll (m : Machine σ α) (frame : Frame) (actions : List α)
    (hs : m.staged = .empty) :
    (m.pushAll frame actions).splice.queue.toList =
      frame.entries (m.generation frame.governor) actions ++ m.queue.toList := by
  rw [pushAll_eq]
  simp only [splice, Backlog.toList_splice, Backlog.toList_ofList, hs, Backlog.toList_empty,
    List.append_nil, List.reverse_reverse]

/-! ### Generations -/

theorem generation_discard (m : Machine σ α) {g : GovernorId} (hg : g < m.governors.size) :
    (m.discard g).generation g = m.generation g + 1 := by
  simp only [generation, discard, Array.getElem?_modify, if_true, Array.getElem?_eq_getElem hg,
    Option.map_some, Governor.discard]

theorem generation_discard_of_ne (m : Machine σ α) {g g' : GovernorId} (h : g' ≠ g) :
    (m.discard g).generation g' = m.generation g' := by
  simp only [generation, discard, Array.getElem?_modify, if_neg h.symm]

/-- A governor that was never made has nothing to discard. -/
theorem discard_of_size_le (m : Machine σ α) {g : GovernorId} (hg : m.governors.size ≤ g) :
    m.discard g = m := by
  have hsame : m.governors.modify g Governor.discard = m.governors := by
    refine Array.ext_getElem? fun i => ?_
    rw [Array.getElem?_modify]
    split
    · subst g
      rw [Array.getElem?_eq_none hg, Option.map_none]
    · rfl
  rw [discard, hsame]

/-- A new governor is at its first generation, as if it had been there before. -/
theorem generation_govern (m : Machine σ α) (depth : Nat) (g : GovernorId) :
    (m.govern depth).2.generation g = m.generation g := by
  simp only [generation, govern, Array.getElem?_push]
  by_cases hg : g = m.governors.size
  · subst hg
    rw [if_pos rfl, Array.getElem?_eq_none (Nat.le_refl _)]
  · rw [if_neg hg]

/-- Discarding changes the governors only. -/
theorem discardTimes_eq (m : Machine σ α) (g : GovernorId) (n : Nat) :
    m.discardTimes g n = { m with governors := (m.discardTimes g n).governors } := by
  induction n generalizing m with
  | zero => rfl
  | succ n ih => exact ih (m.discard g)

@[simp] theorem size_governors_discardTimes (m : Machine σ α) (g : GovernorId) (n : Nat) :
    (m.discardTimes g n).governors.size = m.governors.size := by
  induction n generalizing m with
  | zero => rfl
  | succ n ih => exact (ih (m.discard g)).trans Array.size_modify

theorem generation_discardTimes_of_ne (m : Machine σ α) {g g' : GovernorId} (n : Nat)
    (h : g' ≠ g) : (m.discardTimes g n).generation g' = m.generation g' := by
  induction n generalizing m with
  | zero => rfl
  | succ n ih => exact (ih (m.discard g)).trans (generation_discard_of_ne m h)

/-- As long as the counter does not wrap around, each discard counts. -/
theorem toNat_generation_discardTimes (m : Machine σ α) {g : GovernorId} {n : Nat}
    (hg : g < m.governors.size) (hn : (m.generation g).toNat + n < UInt32.size) :
    ((m.discardTimes g n).generation g).toNat = (m.generation g).toNat + n := by
  induction n generalizing m with
  | zero => rfl
  | succ n ih =>
    have hone : ((m.discard g).generation g).toNat = (m.generation g).toNat + 1 := by
      rw [generation_discard m hg, UInt32.toNat_add]
      exact Nat.mod_eq_of_lt (by simp only [UInt32.size] at hn; rw [UInt32.toNat_one]; omega)
    have hsize : g < (m.discard g).governors.size := by
      rw [discard, Array.size_modify]
      exact hg
    rw [discardTimes, ih (m.discard g) hsize (by omega), hone]
    omega

end Machine

namespace Work

variable {σ α β γ : Type}

/-! ### Work in sequence -/

theorem exec_bind (w : Work σ α β) (f : β → Work σ α γ) (m : Machine σ α) :
    (w >>= f).exec m =
      match w.exec m with
      | (.ok b, m) => (f b).exec m
      | (.error fault, m) => (.error fault, m) := by
  change (w.bind f).exec m = _
  induction w generalizing m with
  | done b => rfl
  | abort fault => rfl
  | charge units next ih => exact ih _ _
  | stage e next ih => exact ih _ _
  | discard g next ih => exact ih _ _
  | govern d next ih => exact ih _ _
  | update change next ih => exact ih _ _
  | observe next ih => exact ih _ _
  | generation g next ih => exact ih _ _
  | depth next ih => exact ih _ _
  | cost next ih => exact ih _ _
  | forkLimit next ih => exact ih _ _
  | pending next ih => exact ih _ _

/-- The last step is taken on whatever world the work leaves. -/
theorem exec_ensuring (last : σ → σ) (w : Work σ α β) (m : Machine σ α) :
    (w.ensuring last).exec m =
      ((w.exec m).1, { (w.exec m).2 with world := last (w.exec m).2.world }) := by
  induction w generalizing m with
  | done b => rfl
  | abort fault => rfl
  | charge units next ih => exact ih _ _
  | stage e next ih => exact ih _ _
  | discard g next ih => exact ih _ _
  | govern d next ih => exact ih _ _
  | update change next ih => exact ih _ _
  | observe next ih => exact ih _ _
  | generation g next ih => exact ih _ _
  | depth next ih => exact ih _ _
  | cost next ih => exact ih _ _
  | forkLimit next ih => exact ih _ _
  | pending next ih => exact ih _ _

/-! ### Single operations -/

theorem exec_pay (m : Machine σ α) :
    (pay 1 : Work σ α Unit).exec m =
      if m.cost < m.limits.commands then (.ok (), { m with cost := m.cost + 1 })
      else (.error (.ofCeiling (.commandCost m.limits.commands)), m) := by
  rw [pay, exec, Machine.charge]
  by_cases h : m.cost < m.limits.commands
  · have hroom : 1 ≤ m.room := Nat.sub_pos_of_lt h
    rw [if_pos hroom, if_pos h, Nat.min_eq_left hroom]
    rfl
  · have hroom : m.room = 0 := Nat.sub_eq_zero_of_le (Nat.le_of_not_lt h)
    rw [hroom, if_neg (by decide), if_neg h]
    rfl

/-! ### What work leaves alone -/

/-- What every single operation keeps. -/
structure Kept (P : Machine σ α → Prop) : Prop where
  charge : ∀ m units, P m → P (m.charge units).2
  stage : ∀ m e, P m → P (m.stage e)
  discard : ∀ m g, P m → P (m.discard g)
  govern : ∀ m depth, P m → P (m.govern depth).2
  change : ∀ (m : Machine σ α) world, P m → P { m with world }

theorem exec_keeps {P : Machine σ α → Prop} (hP : Kept P) (w : Work σ α β) (m : Machine σ α)
    (h : P m) : P (w.exec m).2 := by
  induction w generalizing m with
  | done b => exact h
  | abort fault => exact h
  | charge units next ih => exact ih _ _ (hP.charge m units h)
  | stage e next ih => exact ih _ _ (hP.stage m e h)
  | discard g next ih => exact ih _ _ (hP.discard m g h)
  | govern d next ih => exact ih _ _ (hP.govern m d h)
  | update change next ih => exact ih _ _ (hP.change m _ h)
  | observe next ih => exact ih _ _ h
  | generation g next ih => exact ih _ _ h
  | depth next ih => exact ih _ _ h
  | cost next ih => exact ih _ _ h
  | forkLimit next ih => exact ih _ _ h
  | pending next ih => exact ih _ _ h

theorem limits_exec (w : Work σ α β) (m : Machine σ α) : (w.exec m).2.limits = m.limits :=
  exec_keeps (P := fun m' => m'.limits = m.limits)
    ⟨fun _ _ h => h, fun _ _ h => h, fun _ _ h => h, fun _ _ h => h, fun _ _ h => h⟩ w m rfl

theorem queue_exec (w : Work σ α β) (m : Machine σ α) : (w.exec m).2.queue = m.queue :=
  exec_keeps (P := fun m' => m'.queue = m.queue)
    ⟨fun _ _ h => h, fun _ _ h => h, fun _ _ h => h, fun _ _ h => h, fun _ _ h => h⟩ w m rfl

end Work

/-! ### Fanning out -/

namespace Task

variable {σ α : Type}

/-- The tasks that scheduling queues. -/
def batch : List α → List (Task α)
  | [] => []
  | [a] => [.act a]
  | [a, b] => [.act a, .act b]
  | a :: rest => [.act a, .fan rest]

/-- The tasks that the rest of a fan-out queues in its turn. -/
def unfolded : List α → List (Task α)
  | [] => []
  | [a] => [.act a]
  | a :: rest => [.act a, .fan rest]

/-- The items a task stands for. -/
def items : Task α → List α
  | .act a => [a]
  | .fan items => items

def isAct : Task α → Bool
  | .act _ => true
  | .fan _ => false

/-- The task with another action in the place of its own. -/
def retold (made : α → α) : Task α → Task α
  | .act a => .act (made a)
  | .fan items => .fan items

/-- The actions that are made of items. -/
def acts (made : α → α) (items : List α) : List (Task α) := items.map fun a => .act (made a)

/-- The entries of these items are made in the frame that is given, and depend on the items alone:
to make one is to stamp it, and does nothing else. -/
def Makes (make : Factory σ α) (made : α → α) (items : List α) : Prop :=
  ∀ a ∈ items, ∀ frame, make frame a = Work.entry frame (.act (made a))

theorem makes_plain (items : List α) : Makes (Factory.plain : Factory σ α) id items :=
  fun _ _ _ => rfl

variable {make : Factory σ α} {made : α → α} {items : List α}

theorem Makes.tail {a : α} (h : Makes make made (a :: items)) : Makes make made items :=
  fun b hb => h b (List.mem_cons_of_mem a hb)

theorem Makes.queueItem_eq {a : α} (h : Makes make made items) (ha : a ∈ items) (frame : Frame) :
    queueItem make frame a = Work.enqueue frame (.act (made a)) := by
  rw [queueItem, h a ha]
  rfl

/-- Scheduling queues the entry of the first item, and of the second or what is left behind it. -/
theorem Makes.schedule_eq (h : Makes make made items) (frame : Frame) :
    schedule make frame items = ((batch items).map (retold made)).forM (Work.enqueue frame) := by
  match items with
  | [] => rfl
  | [a] =>
    rw [schedule, h.queueItem_eq List.mem_cons_self]
    rfl
  | [a, b] =>
    rw [schedule, h.queueItem_eq List.mem_cons_self, h.tail.queueItem_eq List.mem_cons_self]
    rfl
  | a :: b :: c :: rest =>
    change queueItem make frame a >>= (fun _ => Work.enqueue frame (.fan (b :: c :: rest))) = _
    rw [h.queueItem_eq List.mem_cons_self]
    rfl

/-- A fan-out queues the entry of its next item, and what is left behind it. -/
theorem Makes.unfold_eq (h : Makes make made items) (frame : Frame) :
    unfold make frame items = ((unfolded items).map (retold made)).forM (Work.enqueue frame) := by
  match items with
  | [] => rfl
  | [a] =>
    rw [unfold, h.queueItem_eq List.mem_cons_self]
    rfl
  | a :: b :: rest =>
    change queueItem make frame a >>= (fun _ => Work.enqueue frame (.fan (b :: rest))) = _
    rw [h.queueItem_eq List.mem_cons_self]
    rfl

theorem exec_forM_enqueue (frame : Frame) (tasks : List (Task α)) (m : Machine σ (Task α)) :
    (tasks.forM (Work.enqueue frame)).exec m = (.ok (), m.pushAll frame tasks) := by
  induction tasks generalizing m with
  | nil => rfl
  | cons task tasks ih => exact ih (m.push frame task)

theorem exec_schedule_of_makes (h : Makes make made items) (frame : Frame)
    (m : Machine σ (Task α)) : (schedule make frame items).exec m =
      (.ok (), m.pushAll frame ((batch items).map (retold made))) := by
  rw [h.schedule_eq, exec_forM_enqueue]

theorem exec_unfold_of_makes (h : Makes make made items) (frame : Frame) (m : Machine σ (Task α)) :
    (unfold make frame items).exec m =
      (.ok (), m.pushAll frame ((unfolded items).map (retold made))) := by
  rw [h.unfold_eq, exec_forM_enqueue]

theorem exec_queueAll_of_makes (h : Makes make made items) (frame : Frame)
    (m : Machine σ (Task α)) :
    (queueAll make frame items).exec m = (.ok (), m.pushAll frame (acts made items)) := by
  induction items generalizing m with
  | nil => rfl
  | cons a items ih =>
    change (queueItem make frame a >>= fun _ => queueAll make frame items).exec m = _
    rw [h.queueItem_eq List.mem_cons_self]
    exact ih h.tail (m.push frame (.act (made a)))

theorem map_retold_id (tasks : List (Task α)) : tasks.map (retold id) = tasks := by
  have hid (task : Task α) : retold id task = task := by cases task <;> rfl
  rw [funext hid]
  exact List.map_id' tasks

theorem schedule_plain (frame : Frame) (items : List α) :
    (schedule .plain frame items : Work σ (Task α) Unit) =
      (batch items).forM (Work.enqueue frame) := by
  rw [(makes_plain items).schedule_eq, map_retold_id]

theorem unfold_plain (frame : Frame) (items : List α) :
    (unfold .plain frame items : Work σ (Task α) Unit) =
      (unfolded items).forM (Work.enqueue frame) := by
  rw [(makes_plain items).unfold_eq, map_retold_id]

theorem exec_schedule (frame : Frame) (items : List α) (m : Machine σ (Task α)) :
    (schedule .plain frame items).exec m = (.ok (), m.pushAll frame (batch items)) := by
  rw [schedule_plain, exec_forM_enqueue]

theorem exec_unfold (frame : Frame) (items : List α) (m : Machine σ (Task α)) :
    (unfold .plain frame items).exec m = (.ok (), m.pushAll frame (unfolded items)) := by
  rw [unfold_plain, exec_forM_enqueue]

/-- What holds for the action of each item and for a fan-out of some of them holds for all that
scheduling queues. -/
theorem forall_batch {P : Task α → Prop} (hact : ∀ a ∈ items, P (.act a))
    (hfan : ∀ left, left ≠ [] → left ⊆ items → P (.fan left)) : ∀ task ∈ batch items, P task := by
  match items with
  | [] => exact fun _ htask => absurd htask List.not_mem_nil
  | [a] => exact List.forall_mem_singleton.mpr (hact a List.mem_cons_self)
  | [a, b] =>
    exact List.forall_mem_cons.mpr ⟨hact a List.mem_cons_self,
      List.forall_mem_singleton.mpr (hact b (List.mem_cons_of_mem _ List.mem_cons_self))⟩
  | a :: b :: c :: rest =>
    exact List.forall_mem_cons.mpr ⟨hact a List.mem_cons_self,
      List.forall_mem_singleton.mpr (hfan _ (List.cons_ne_nil _ _) (List.subset_cons_self _ _))⟩

theorem forall_unfolded {P : Task α → Prop} (hact : ∀ a ∈ items, P (.act a))
    (hfan : ∀ left, left ≠ [] → left ⊆ items → P (.fan left)) :
    ∀ task ∈ unfolded items, P task := by
  match items with
  | [] => exact fun _ htask => absurd htask List.not_mem_nil
  | [a] => exact List.forall_mem_singleton.mpr (hact a List.mem_cons_self)
  | a :: b :: rest =>
    exact List.forall_mem_cons.mpr ⟨hact a List.mem_cons_self,
      List.forall_mem_singleton.mpr (hfan _ (List.cons_ne_nil _ _) (List.subset_cons_self _ _))⟩

theorem flatMap_batch (items : List α) : (batch items).flatMap Task.items = items := by
  match items with
  | [] => rfl
  | [_] => rfl
  | [_, _] => rfl
  | a :: b :: c :: rest => simp [batch, Task.items]

theorem flatMap_unfolded (items : List α) : (unfolded items).flatMap Task.items = items := by
  match items with
  | [] => rfl
  | [_] => rfl
  | a :: b :: rest => simp [unfolded, Task.items]

theorem flatMap_act (items : List α) : (items.map Task.act).flatMap Task.items = items := by
  induction items with
  | nil => rfl
  | cons a rest ih => simp [Task.items, ih]

end Task

end Trampoline
