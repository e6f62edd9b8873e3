import Trampoline.Proofs.Machine.Contract
import Trampoline.Proofs.Machine.Sequence

/-! How much of a fan-out waits.

Items are told from everything else by a test that no action but they pass: nothing is
queued that comes from them, except by the fan-out (`sparing`). Then at most two of the
tasks that wait come from them, and the fan-out is the last of them (`Short`). It only
ever gets its turn when it is the only one left, and queues two tasks at most; so it
stays like that (`stemming_history`), however many items there are. -/
namespace Trampoline

variable {σ α : Type}

/-- Whether a task comes from some items: it is one of them, or has one of them left. -/
def Task.stems (own : α → Bool) (task : Task α) : Bool := (Task.items task).any own

/-- No item is queued. -/
def sparing (own : α → Bool) (limits : Limits) : Contract σ (Task α) where
  limits
  fault _ := True
  action task := task.stems own = false
  world _ := True

namespace Machine

/-- The tasks of some items that wait, in order. -/
def stemming (own : α → Bool) (m : Machine σ (Task α)) : List (Task α) :=
  ((m.staged.toList.reverse ++ m.queue.toList).map (·.action)).filter (Task.stems own)

/-- At most two tasks, and a fan-out only as the last of them; it has some of the items left. -/
structure Short (items : List α) (tasks : List (Task α)) : Prop where
  length : tasks.length ≤ 2
  acts : ∀ task ∈ tasks.dropLast, task.isAct = true
  fans : ∀ left, .fan left ∈ tasks → ∀ a ∈ left, a ∈ items

variable {items left : List α} {make : Task.Factory σ α} {made : α → α}

theorem Short.tail {task : Task α} {tasks : List (Task α)} (h : Short items (task :: tasks)) :
    Short items tasks := by
  obtain ⟨hlength, hacts, hfans⟩ := h
  rw [List.length_cons] at hlength
  refine ⟨by omega, fun t ht => hacts t ?_,
    fun left hleft => hfans left (List.mem_cons_of_mem _ hleft)⟩
  cases tasks with
  | nil => cases ht
  | cons t' tasks => exact List.mem_cons_of_mem _ ht

theorem Short.head {task : Task α} {tasks : List (Task α)} (h : Short items (task :: tasks)) :
    Short items [task] :=
  ⟨Nat.le_succ 1, nofun, fun left hleft => h.fans left (by
    rw [List.mem_singleton.mp hleft]
    exact List.mem_cons_self)⟩

theorem Short.eq_nil {tasks : List (Task α)} (h : Short items (.fan left :: tasks)) :
    tasks = [] := by
  cases tasks with
  | nil => rfl
  | cons task tasks => exact absurd (h.acts _ List.mem_cons_self) Bool.false_ne_true

theorem short_nil : Short items ([] : List (Task α)) := ⟨Nat.zero_le _, nofun, nofun⟩

theorem short_act (a : α) : Short items [.act a] :=
  ⟨Nat.le_succ 1, nofun, fun _ h => by cases List.mem_singleton.mp h⟩

/-- One more action in front. -/
theorem Short.cons {task : Task α} (h : Short items [task]) (a : α) :
    Short items [.act a, task] := by
  refine ⟨Nat.le_refl _, fun t ht => by rw [List.mem_singleton.mp ht]; rfl, fun left hleft => ?_⟩
  rcases List.mem_cons.mp hleft with hleft | hleft
  · cases hleft
  · exact h.fans left hleft

theorem short_fan (h : ∀ a ∈ left, a ∈ items) : Short items [.fan left] :=
  ⟨Nat.le_succ 1, nofun, fun _ hleft => by cases List.mem_singleton.mp hleft; exact h⟩

theorem Short.filter {tasks : List (Task α)} (h : Short items tasks) (p : Task α → Bool) :
    Short items (tasks.filter p) := by
  match tasks with
  | [] => exact h
  | [task] =>
    cases hp : p task with
    | true => rwa [List.filter_cons_of_pos hp]
    | false =>
      rw [List.filter_cons_of_neg (by simp [hp])]
      exact h.tail
  | [task, last] =>
    cases hp : p task with
    | true =>
      cases hq : p last with
      | true => rwa [List.filter_cons_of_pos hp, List.filter_cons_of_pos hq]
      | false =>
        rw [List.filter_cons_of_pos hp, List.filter_cons_of_neg (by simp [hq])]
        exact h.head
    | false =>
      cases hq : p last with
      | true =>
        rw [List.filter_cons_of_neg (by simp [hp]), List.filter_cons_of_pos hq]
        exact h.tail
      | false =>
        rw [List.filter_cons_of_neg (by simp [hp]), List.filter_cons_of_neg (by simp [hq])]
        exact h.tail.tail
  | _ :: _ :: _ :: _ =>
    have hlength := h.length
    simp only [List.length_cons] at hlength
    omega

theorem short_batch (made : α → α) (items : List α) :
    Short items ((Task.batch items).map (Task.retold made)) := by
  match items with
  | [] => exact short_nil
  | [a] => exact short_act _
  | [a, b] => exact (short_act _).cons _
  | a :: b :: c :: items => exact (short_fan fun _ h => List.mem_cons_of_mem a h).cons _

theorem short_unfolded (made : α → α) (h : ∀ a ∈ left, a ∈ items) :
    Short items ((Task.unfolded left).map (Task.retold made)) := by
  match left with
  | [] => exact short_nil
  | [a] => exact short_act _
  | a :: b :: left => exact (short_fan fun x hx => h x (List.mem_cons_of_mem a hx)).cons _

variable {own : α → Bool} {m m₁ : Machine σ (Task α)} {limits : Limits} {e : Entry (Task α)}
  {rest : List (Entry (Task α))} {frame : Frame}

theorem stemming_stage (m : Machine σ (Task α)) (e : Entry (Task α)) :
    (m.stage e).stemming own =
      (m.staged.toList.reverse.map (·.action)).filter (Task.stems own) ++
        ([e.action].filter (Task.stems own) ++
          (m.queue.toList.map (·.action)).filter (Task.stems own)) := by
  simp only [stemming, stage, Backlog.toList_push, List.reverse_cons, List.map_append,
    List.filter_append, List.append_assoc, List.map_cons, List.map_nil]

theorem stemming_splice (m : Machine σ (Task α)) : m.splice.stemming own = m.stemming own := by
  simp only [stemming, splice, Backlog.toList_splice, Backlog.toList_empty, List.reverse_nil,
    List.nil_append]

theorem length_stemming_stage_le (own : α → Bool) (m : Machine σ (Task α))
    (e : Entry (Task α)) :
    ((m.stage e).stemming own).length ≤ (m.stemming own).length + 1 := by
  have hone : ([e.action].filter (Task.stems own)).length ≤ 1 := List.length_filter_le ..
  rw [stemming_stage, stemming, List.map_append, List.filter_append]
  simp only [List.length_append]
  omega

/-- If nothing of the items waits yet, then what is queued of them. -/
theorem stemming_pushAll (frame : Frame) (tasks : List (Task α)) (h : m.stemming own = []) :
    (m.pushAll frame tasks).stemming own = tasks.filter (Task.stems own) := by
  have hmap : (frame.entries (m.generation frame.governor) tasks).map (·.action) = tasks := by
    unfold Frame.entries
    rw [List.map_map]
    exact List.map_id _
  rw [stemming, List.map_append, List.filter_append, List.append_eq_nil_iff] at h
  rw [pushAll_eq]
  simp only [stemming, Backlog.toList_ofList, List.reverse_append, List.reverse_reverse,
    List.map_append, List.filter_append, hmap, h.1, h.2, List.nil_append, List.append_nil]

/-- Work that queues no item leaves the items that wait as they are. -/
theorem keptBy_stemming (own : α → Bool) (limits : Limits) (tasks : List (Task α)) :
    KeptBy (sparing own limits : Contract σ (Task α))
      fun m => m.limits = limits ∧ m.stemming own = tasks where
  limits _ h := h.1
  world _ _ := trivial
  charge _ _ h := h
  stage m e ha h := by
    refine ⟨h.1, ?_⟩
    have hnone : [e.action].filter (Task.stems own) = [] := List.filter_cons_of_neg (by
      rw [show e.action.stems own = false from ha]
      exact Bool.false_ne_true)
    rw [stemming_stage, hnone, List.nil_append, ← h.2, stemming, List.map_append,
      List.filter_append]
  discard _ _ h := h
  govern _ _ h := h
  change _ _ _ h := h

/-- Taking an entry off the queue. -/
theorem stemming_of_cons (own : α → Bool) (hs : m.staged = .empty)
    (hq : m.queue.toList = e :: rest) :
    m.stemming own =
      if e.action.stems own then e.action :: (m.without rest).stemming own
      else (m.without rest).stemming own := by
  simp only [stemming, without, hs, hq, Backlog.toList_empty, Backlog.toList_ofList,
    List.reverse_nil, List.nil_append, List.map_cons, List.filter_cons]

/-- A fan-out that has no item left queues none, if no entry that is made of anything else is one. -/
theorem sparing_unfold
    (hmake : ∀ a frame, own a = false →
      (make frame a).Keeps (sparing own limits) fun e => e.action.stems own = false)
    (h : (Task.fan left).stems own = false) :
    (Task.unfold make frame left).Keeps (sparing own limits) fun _ => True := by
  have hqueue : ∀ a ∈ left,
      (Task.queueItem make frame a).Keeps (sparing own limits) fun _ => True := fun a ha =>
    (hmake a frame (by simpa using List.any_eq_false.mp h a ha)).bind fun _ he => ⟨he, trivial⟩
  match left with
  | [] => exact trivial
  | [a] => exact hqueue a List.mem_cons_self
  | a :: b :: left =>
    refine (hqueue a List.mem_cons_self).bind fun _ _ => Work.keeps_enqueue ?_
    exact List.any_eq_false.mpr fun x hx =>
      List.any_eq_false.mp h x (List.mem_cons_of_mem a hx)

/-- Each task that is queued adds one at most. -/
theorem stemming_forM_enqueue (own : α → Bool) (frame : Frame) (tasks : List (Task α))
    (m : Machine σ (Task α)) :
    ∀ x ∈ (tasks.forM (Work.enqueue frame)).history m,
      (x.2.stemming own).length ≤ (m.stemming own).length + tasks.length := by
  induction tasks generalizing m with
  | nil => exact fun _ hx => absurd hx List.not_mem_nil
  | cons task tasks ih =>
    have hle := length_stemming_stage_le own m (m.entry frame task)
    intro x hx
    rw [List.length_cons]
    rcases List.mem_cons.mp hx with rfl | hx
    · exact Nat.le_trans hle (by omega)
    · exact Nat.le_trans (ih (m.push frame task) x hx) (by rw [push]; omega)

/-- A fan-out that comes from the items is the only task of them, so there is room for the two it
queues. -/
theorem stemming_unfold (hmakes : Task.Makes make made items) (hleft : ∀ a ∈ left, a ∈ items)
    (h : m.stemming own = []) :
    (∀ x ∈ (Task.unfold make frame left).history m, (x.2.stemming own).length ≤ 2) ∧
      Short items (((Task.unfold make frame left).exec m).2.stemming own) := by
  have hmakes' : Task.Makes make made left := fun a ha => hmakes a (hleft a ha)
  have hshort := short_unfolded made hleft
  rw [hmakes'.unfold_eq, Task.exec_forM_enqueue, stemming_pushAll frame _ h]
  refine ⟨fun x hx => ?_, hshort.filter _⟩
  have hle := stemming_forM_enqueue own frame _ m x hx
  rw [h] at hle
  exact Nat.le_trans hle (by rw [List.length_nil, Nat.zero_add]; exact hshort.length)

/-- What waits of the items when the next entry has been taken off. -/
theorem Short.without (hs : m.staged = .empty) (hq : m.queue.toList = e :: rest)
    (h : Short items (m.stemming own)) : Short items ((m.without rest).stemming own) := by
  rw [stemming_of_cons own hs hq] at h
  split at h
  · exact h.tail
  · exact h

/-- Work that queues none of the items. -/
theorem Short.work {w : Work σ (Task α) Unit} (hw : w.Keeps (sparing own limits) fun _ => True)
    (hl : m.limits = limits) (h : Short items (m.stemming own)) :
    (∀ x ∈ w.history m, (x.2.stemming own).length ≤ 2) ∧
      Short items ((w.exec m).2.stemming own) := by
  obtain ⟨hall, ⟨-, hlast⟩, -⟩ := (keptBy_stemming own limits _).work hw (m := m) ⟨hl, rfl⟩
  refine ⟨fun x hx => ?_, ?_⟩
  · rw [(hall x hx).2]
    exact h.length
  · rw [hlast]
    exact h

/-- A fault forgets whatever waits. -/
theorem queue_of_fault [Audience σ] {mean : Task α → Frame → Work σ (Task α) Unit} {fault : Fault}
    (hp : perform mean m e = (some fault, m₁)) : m₁.queue = .empty := by
  match hx : (mean e.action e.frame).exec m with
  | (.error _, m₂) =>
    rw [perform_of_error hx] at hp
    cases hp
    rfl
  | (.ok (), m₂) =>
    rw [perform_of_ok hx] at hp
    split at hp
    · cases hp
      rfl
    · cases hp

section Run

variable {mean : α → Frame → Work σ (Task α) Unit}
  (hm : ∀ a frame, (mean a frame).Keeps (sparing own limits) fun _ => True)
  (hmake : ∀ a frame, own a = false →
    (make frame a).Keeps (sparing own limits) fun e => e.action.stems own = false)
  (hmakes : Task.Makes make made items)

include hm hmake hmakes

/-- One turn. Only a fan-out that comes from the items queues any, and then no other of them
waits. -/
theorem stemming_turn (hl : m.limits = limits) (hs : m.staged = .empty)
    (hq : m.queue.toList = e :: rest) (h : Short items (m.stemming own)) :
    (∀ x ∈ (Task.meaning make mean e.action e.frame).history (m.begin e rest),
      (x.2.stemming own).length ≤ 2) ∧
      Short items
        (((Task.meaning make mean e.action e.frame).exec (m.begin e rest)).2.stemming own) := by
  have hrest : Short items ((m.begin e rest).stemming own) := h.without hs hq
  cases he : e.action with
  | act a => exact hrest.work (hm a e.frame) hl
  | fan left =>
    cases hstems : (Task.fan left).stems own with
    | true =>
      rw [stemming_of_cons own hs hq, he, hstems, if_pos rfl] at h
      exact stemming_unfold hmakes (h.fans left List.mem_cons_self) h.eq_nil
    | false => exact hrest.work (sparing_unfold hmake hstems) hl

/-- At every moment of a run at most two of the tasks that wait come from the items. -/
theorem stemming_history [Audience σ] (fuel : Nat) (hl : m.limits = limits) (hs : m.staged = .empty)
    (h : Short items (m.stemming own)) :
    ∀ x ∈ m.history (Task.meaning make mean) fuel, (x.2.stemming own).length ≤ 2 := by
  induction fuel generalizing m with
  | zero => exact fun _ hx => absurd hx List.not_mem_nil
  | succ fuel ih =>
    cases hq : m.queue.toList with
    | nil =>
      rw [history_of_nil hq]
      exact fun _ hx => absurd hx List.not_mem_nil
    | cons e rest =>
      have hrest := h.without hs hq
      cases hlive : m.isLive e with
      | false =>
        rw [history_of_dead hq hlive]
        exact List.forall_mem_cons.mpr ⟨hrest.length, ih hl hs hrest⟩
      | true =>
        have hturn := stemming_turn hm hmake hmakes hl hs hq h
        rw [history_of_live hq hlive]
        intro x hx
        rcases List.mem_append.mp hx with hx | hx
        · rcases List.mem_cons.mp hx with rfl | hx
          · exact hrest.length
          · exact hturn.1 x hx
        · match hp : perform (Task.meaning make mean) (m.begin e rest) e with
          | (some fault, m₁) =>
            rw [hp] at hx
            rw [List.mem_singleton.mp hx, stemming, staged_perform hp, queue_of_fault hp]
            exact Nat.zero_le _
          | (none, m₁) =>
            rw [hp] at hx
            have hl₁ : m₁.limits = limits := (limits_perform hp).trans hl
            have hs₁ := staged_perform hp
            obtain ⟨m₂, hexec, -, rfl⟩ := perform_eq_none.mp hp
            rw [hexec] at hturn
            exact ih hl₁ hs₁ ((stemming_splice m₂).symm ▸ hturn.2) x hx

end Run

end Machine

end Trampoline
