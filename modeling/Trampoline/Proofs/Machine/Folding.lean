import Trampoline.Proofs.Machine.OneByOne

/-! Fan-outs and what they stand for.

A fan-out that waits stands for the entries of its items. `Unfolds` relates a queue to
one where some fan-outs are replaced by these. A machine with the one queue and a
machine with the other perform the same actions: they take strides, some turns of the
one and some of the other, in which both perform the same action or neither any
(`Folded.stride`). So with whatever fuel the one is run, there is fuel with which the
other does the same (`Folded.agrees`, `Folded.agrees'`). -/
namespace Trampoline

variable {σ α β : Type}

namespace History

/-- The actions performed, in order, each with the world it found. -/
def acts (h : History σ (Task α)) : List (Entry (Task α) × σ) :=
  h.filterMap fun
    | (.begun e, m) => if e.action.isAct then some (e, m.world) else none
    | _ => none

theorem acts_append (a b : History σ (Task α)) : acts (a ++ b) = acts a ++ acts b :=
  List.filterMap_append

theorem acts_of_performed {h : History σ (Task α)} (hp : h.performed = []) : h.acts = [] := by
  unfold performed at hp
  rw [List.filterMap_eq_nil_iff] at hp
  refine List.filterMap_eq_nil_iff.mpr fun x hx => ?_
  have hnone := hp x hx
  obtain ⟨mark, m⟩ := x
  cases mark with
  | begun e => cases hnone
  | _ => rfl

theorem acts_begun (e : Entry (Task α)) (m : Machine σ (Task α)) (h : History σ (Task α)) :
    acts ((.begun e, m) :: h) = (if e.action.isAct then [(e, m.world)] else []) ++ acts h := by
  unfold acts
  rw [List.filterMap_cons]
  cases hact : e.action.isAct with
  | true => simp only [hact, if_true, List.singleton_append]
  | false => simp only [hact, Bool.false_eq_true, if_false, List.nil_append]

end History

namespace Machine

/-! ### Agreement -/

variable [Audience σ] {mean : Task α → Frame → Work σ (Task α) Unit}
  {m m' m₁ m₁' : Machine σ (Task α)} {e : Entry (Task α)}
  {rest rest' q q' : List (Entry (Task α))} {fuel fuel' : Nat} {fault : Fault}

omit [Audience σ] in
theorem acts_turn (m : Machine σ (Task α)) (e : Entry (Task α)) (rest : List (Entry (Task α)))
    (h : History σ (Task α)) :
    (m.turn mean e rest ++ h).acts =
      (if e.action.isAct then [(e, m.world)] else []) ++ h.acts := by
  have hwork := History.acts_of_performed
    (Work.history_no_turns (mean e.action e.frame) (m.begin e rest)).1
  rw [turn, List.cons_append, History.acts_begun, History.acts_append, hwork]
  rfl

/-- Two machines perform the same actions in the same worlds with the fuel they are given, and end
alike, and if they come to an end they are the same machine then. -/
structure Agrees (mean : Task α → Frame → Work σ (Task α) Unit) (m m' : Machine σ (Task α))
    (fuel fuel' : Nat) : Prop where
  acts : (m.history mean fuel).acts = (m'.history mean fuel').acts
  ending : (drain mean fuel m).1 = (drain mean fuel' m').1
  machine : (drain mean fuel m).1 ≠ .unfinished →
    (drain mean fuel m).2 = (drain mean fuel' m').2

theorem Agrees.symm (h : Agrees mean m m' fuel fuel') : Agrees mean m' m fuel' fuel :=
  ⟨h.acts.symm, h.ending.symm, fun hne => (h.machine (h.ending ▸ hne)).symm⟩

theorem agrees_finished (hq : m.queue.toList = []) : Agrees mean m m fuel fuel' := by
  refine ⟨?_, ?_, fun _ => ?_⟩
  · rw [history_of_nil hq, history_of_nil hq]
  · rw [drain_of_nil hq, drain_of_nil hq]
  · rw [drain_of_nil hq, drain_of_nil hq]

theorem agrees_unfinished {e' : Entry (Task α)} (hq : m.queue.toList = e :: rest)
    (hq' : m'.queue.toList = e' :: rest') : Agrees mean m m' 0 0 :=
  ⟨rfl, by rw [drain_zero hq, drain_zero hq'], fun h => absurd (congrArg Prod.fst (drain_zero hq)) h⟩

theorem Agrees.dropped (hq : m.queue.toList = e :: rest) (hl : m.isLive e = false)
    (h : Agrees mean (m.without rest) m' fuel fuel') : Agrees mean m m' (fuel + 1) fuel' := by
  obtain ⟨hacts, hending, hmachine⟩ := h
  refine ⟨?_, ?_, ?_⟩
  · rw [history_of_dead hq hl]
    exact hacts
  · rw [drain_of_dead hq hl]
    exact hending
  · rw [drain_of_dead hq hl]
    exact hmachine

/-- A fan-out that unfolds performs no action. -/
theorem Agrees.unfolded (hq : m.queue.toList = e :: rest) (hl : m.isLive e = true)
    (hfan : e.action.isAct = false) (hp : perform mean (m.begin e rest) e = (none, m₁))
    (h : Agrees mean m₁ m' fuel fuel') : Agrees mean m m' (fuel + 1) fuel' := by
  obtain ⟨hacts, hending, hmachine⟩ := h
  refine ⟨?_, ?_, ?_⟩
  · rw [history_of_live hq hl, hp, acts_turn, hfan]
    exact hacts
  · rw [drain_of_live hq hl, hp]
    exact hending
  · rw [drain_of_live hq hl, hp]
    exact hmachine

theorem Agrees.performed (hq : m.queue.toList = e :: rest) (hl : m.isLive e = true)
    (hp : perform mean (m.begin e rest) e = (none, m₁)) (hq' : m'.queue.toList = e :: rest')
    (hl' : m'.isLive e = true) (hp' : perform mean (m'.begin e rest') e = (none, m₁'))
    (hworld : m.world = m'.world) (h : Agrees mean m₁ m₁' fuel fuel') :
    Agrees mean m m' (fuel + 1) (fuel' + 1) := by
  obtain ⟨hacts, hending, hmachine⟩ := h
  refine ⟨?_, ?_, ?_⟩
  · rw [history_of_live hq hl, history_of_live hq' hl', hp, hp', acts_turn, acts_turn, hworld]
    exact congrArg _ hacts
  · rw [drain_of_live hq hl, drain_of_live hq' hl', hp, hp']
    exact hending
  · rw [drain_of_live hq hl, drain_of_live hq' hl', hp, hp']
    exact hmachine

theorem agrees_failed (hq : m.queue.toList = e :: rest) (hl : m.isLive e = true)
    (hp : perform mean (m.begin e rest) e = (some fault, m₁)) (hq' : m'.queue.toList = e :: rest')
    (hl' : m'.isLive e = true) (hp' : perform mean (m'.begin e rest') e = (some fault, m₁))
    (hworld : m.world = m'.world) : Agrees mean m m' (fuel + 1) (fuel' + 1) := by
  refine ⟨?_, ?_, fun _ => ?_⟩
  · rw [history_of_live hq hl, history_of_live hq' hl', hp, hp', acts_turn, acts_turn, hworld]
  · rw [drain_of_live hq hl, drain_of_live hq' hl', hp, hp']
  · rw [drain_of_live hq hl, drain_of_live hq' hl', hp, hp']

/-- A row of dead entries is dropped, if the fuel lasts. -/
theorem agrees_dead {dead : List (Entry (Task α))} (hdead : ∀ e ∈ dead, m.isLive e = false)
    (hq : m.queue.toList = dead ++ rest) (h : Agrees mean (m.without rest) m' fuel fuel') :
    Agrees mean m m' (dead.length + fuel) fuel' := by
  induction dead generalizing m with
  | nil =>
    rw [List.length_nil, Nat.zero_add, ← without_queue (m := m) (q := rest) hq]
    exact h
  | cons d dead ih =>
    obtain ⟨hfirst, hrest⟩ := List.forall_mem_cons.mp hdead
    rw [List.length_cons, Nat.succ_add]
    exact (ih (m := m.without (dead ++ rest)) hrest rfl h).dropped hq hfirst

theorem agrees_dead_unfinished {dead : List (Entry (Task α))}
    (hdead : ∀ e ∈ dead, m.isLive e = false) (hq : m.queue.toList = dead ++ rest)
    (hfuel : fuel < dead.length) (hq' : m'.queue.toList = e :: rest') : Agrees mean m m' fuel 0 := by
  induction fuel generalizing m dead with
  | zero =>
    cases dead with
    | nil => cases hfuel
    | cons d dead => exact agrees_unfinished hq hq'
  | succ fuel ih =>
    cases dead with
    | nil => cases hfuel
    | cons d dead =>
      obtain ⟨hfirst, hrest⟩ := List.forall_mem_cons.mp hdead
      exact (ih (m := m.without (dead ++ rest)) hrest rfl (Nat.lt_of_succ_lt_succ hfuel)).dropped
        hq hfirst

end Machine

/-! ### Fan-outs and what they stand for -/

/-- The second queue is the first with some of its fan-outs replaced by the entries of their items.
These entries depend on nothing but the items. -/
inductive Unfolds (make : Task.Factory σ α) (made : α → α) :
    List (Entry (Task α)) → List (Entry (Task α)) → Prop where
  | nil : Unfolds make made [] []
  | same (e : Entry (Task α)) {q q' : List (Entry (Task α))} (h : Unfolds make made q q') :
      Unfolds make made (e :: q) (e :: q')
  | fan (frame : Frame) (stamp : UInt32) {a : α} {items : List α} {q q' : List (Entry (Task α))}
      (hmakes : Task.Makes make made (a :: items)) (h : Unfolds make made q q') :
      Unfolds make made (⟨frame, stamp, .fan (a :: items)⟩ :: q)
        (frame.entries stamp (Task.acts made (a :: items)) ++ q')

namespace Unfolds

variable {make : Task.Factory σ α} {made : α → α} {q q' : List (Entry (Task α))}
  {items : List α}

theorem refl (q : List (Entry (Task α))) : Unfolds make made q q := by
  induction q with
  | nil => exact .nil
  | cons e q ih => exact .same e ih

theorem append (front : List (Entry (Task α))) (h : Unfolds make made q q') :
    Unfolds make made (front ++ q) (front ++ q') := by
  induction front with
  | nil => exact h
  | cons e front ih => exact .same e ih

theorem length_le (h : Unfolds make made q q') : q.length ≤ q'.length := by
  induction h with
  | nil => exact Nat.le_refl _
  | same e h ih => exact Nat.succ_le_succ ih
  | fan frame stamp hmakes h ih =>
    simp only [Frame.entries, Task.acts, List.map_cons, List.cons_append, List.length_cons,
      List.length_append, List.length_map]
    omega

theorem batch (frame : Frame) (stamp : UInt32) (hmakes : Task.Makes make made items)
    (h : Unfolds make made q q') :
    Unfolds make made
      (frame.entries stamp ((Task.batch items).map (Task.retold made)) ++ q)
      (frame.entries stamp (Task.acts made items) ++ q') := by
  match items with
  | [] => exact h
  | [a] => exact .same _ h
  | [a, b] => exact .same _ (.same _ h)
  | a :: b :: c :: items => exact .same _ (.fan _ stamp hmakes.tail h)

end Unfolds

namespace Machine

variable {make : Task.Factory σ α} {made : α → α}

theorem blind_queueItem (hb : ∀ a frame, (make frame a).Blind) (frame : Frame) (a : α) :
    (Task.queueItem make frame a).Blind :=
  (hb a frame).bind fun _ => trivial

theorem blind_unfold (hb : ∀ a frame, (make frame a).Blind) (frame : Frame) (items : List α) :
    (Task.unfold make frame items).Blind := by
  match items with
  | [] => trivial
  | [a] => exact blind_queueItem hb frame a
  | a :: b :: rest => exact (blind_queueItem hb frame a).bind fun _ => Work.blind_enqueue frame _

/-- If no action asks how many entries wait, and nothing that makes entries does, then no task
does. -/
theorem blind_meaning {mean : α → Frame → Work σ (Task α) Unit}
    (hmake : ∀ a frame, (make frame a).Blind) (hb : ∀ a frame, (mean a frame).Blind) :
    ∀ task frame, (Task.meaning make mean task frame).Blind
  | .act a, frame => hb a frame
  | .fan items, frame => blind_unfold hmake frame items

/-- What is queued without a flag is to be run before what waited, and after what was staged. -/
theorem splice_pushAll {m : Machine σ β} {frame : Frame} {actions : List β}
    (ho : (m.pushAll frame actions).overflow = m.overflow) :
    (m.pushAll frame actions).splice = m.splice.without (m.staged.toList.reverse ++
      (frame.entries (m.generation frame.governor) actions ++ m.queue.toList)) := by
  have hpush := pushAll_eq m frame actions
  rw [ho] at hpush
  have hq : (Backlog.ofList ((frame.entries (m.generation frame.governor) actions).reverse ++
      m.staged.toList)).splice m.queue = .ofList (m.staged.toList.reverse ++
        (frame.entries (m.generation frame.governor) actions ++ m.queue.toList)) :=
    Backlog.ext_toList (by simp only [Backlog.toList_splice, Backlog.toList_ofList,
      List.reverse_append, List.reverse_reverse, List.append_assoc])
  rw [hpush]
  unfold splice without
  simp only [hq]

theorem splice_without_of_empty {m : Machine σ β} (hs : m.staged = .empty) (q : List (Entry β)) :
    m.splice.without q = m.without q := by
  unfold splice without
  rw [hs]

variable [Audience σ] {mean : α → Frame → Work σ (Task α) Unit}
  {m m₁ : Machine σ (Task α)} {e : Entry (Task α)} {rest q q' : List (Entry (Task α))}
  {fault : Fault}

/-- A fan-out that fits queues its next item and what is left behind it. -/
theorem perform_fan {items : List α} (he : e.action = .fan items)
    (hmakes : Task.Makes make made items) (hl : m.isLive e = true) (hs : m.staged = .empty)
    (ho : m.overflow = false)
    (hfit : ((Task.meaning make mean e.action e.frame).history (m.begin e rest)).peak ≤
      m.limits.queue) :
    perform (Task.meaning make mean) (m.begin e rest) e =
      (none, (m.begin e rest).without
        (e.frame.entries e.stamp ((Task.unfolded items).map (Task.retold made)) ++ rest)) := by
  generalize htasks : (Task.unfolded items).map (Task.retold made) = tasks
  have hx : (Task.meaning make mean e.action e.frame).exec (m.begin e rest) =
      (.ok (), (m.begin e rest).pushAll e.frame tasks) := by
    rw [he, ← htasks]
    exact Task.exec_unfold_of_makes hmakes e.frame (m.begin e rest)
  have hflag : ((m.begin e rest).pushAll e.frame tasks).overflow = false := by
    have h := Work.overflow_exec (Task.meaning make mean e.action e.frame) (m.begin e rest)
    rw [hx, show (m.begin e rest).overflow = false from ho] at h
    exact h.trans (decide_eq_false (Nat.not_lt.mpr hfit))
  have hstamp : (m.begin e rest).generation e.frame.governor = e.stamp := beq_iff_eq.mp hl
  have hsplice := splice_pushAll (m := m.begin e rest) (hflag.trans ho.symm)
  have hempty : (m.begin e rest).staged = .empty := hs
  rw [hstamp, splice_without_of_empty hempty, hempty] at hsplice
  exact perform_eq_none.mpr ⟨_, hx, hflag, hsplice.symm⟩

omit [Audience σ] in
/-- The item that a fan-out just queued finds the machine as if it had waited all along. -/
theorem begin_unfolded {e' : Entry (Task α)} (hframe : e'.frame = e.frame)
    (q q' : List (Entry (Task α))) : ((m.begin e rest).without q).begin e' q' = m.begin e' q' := by
  simp only [begin, enter, without, hframe, Nat.max_assoc, Nat.max_self]

/-- A machine between two turns that may run with its queue and with the unfolded one. -/
structure Folded (make : Task.Factory σ α) (made : α → α)
    (mean : α → Frame → Work σ (Task α) Unit) (m : Machine σ (Task α))
    (q' : List (Entry (Task α))) : Prop where
  unfolds : Unfolds make made m.queue.toList q'
  staged : m.staged = .empty
  overflow : m.overflow = false
  roomy : m.Roomy (Task.meaning make mean)
  roomy' : (m.without q').Roomy (Task.meaning make mean)

theorem Roomy.dead {mean : β → Frame → Work σ β Unit} {m : Machine σ β} {rest : List (Entry β)}
    {dead : List (Entry β)} (hr : m.Roomy mean) (hdead : ∀ e ∈ dead, m.isLive e = false)
    (hq : m.queue.toList = dead ++ rest) : (m.without rest).Roomy mean := by
  induction dead generalizing m with
  | nil =>
    rw [without_queue (m := m) (q := rest) hq]
    exact hr
  | cons e dead ih =>
    obtain ⟨hfirst, hrest⟩ := List.forall_mem_cons.mp hdead
    exact ih (m := m.without (dead ++ rest)) (hr.dropped hq hfirst) hrest rfl

/-- An entry does the same in front of the one queue and of the other. -/
theorem perform_unfolds (hmake : ∀ a frame, (make frame a).Blind)
    (hb : ∀ a frame, (mean a frame).Blind) (h : Unfolds make made rest q')
    (hfit : ((Task.meaning make mean e.action e.frame).history ((m.begin e rest).without q')).peak ≤
      m.limits.queue) :
    (∃ fault m₁, perform (Task.meaning make mean) (m.begin e rest) e = (some fault, m₁) ∧
      perform (Task.meaning make mean) ((m.begin e rest).without q') e = (some fault, m₁)) ∨
    ∃ m₁ q₁', perform (Task.meaning make mean) (m.begin e rest) e = (none, m₁) ∧
      perform (Task.meaning make mean) ((m.begin e rest).without q') e = (none, m₁.without q₁') ∧
      Unfolds make made m₁.queue.toList q₁' ∧ m₁.staged = .empty ∧ m₁.overflow = false := by
  have hle : (m.begin e rest).queue.size ≤ q'.length := h.length_le
  match hp : perform (Task.meaning make mean) (m.begin e rest) e with
  | (some fault, m₁) =>
    exact .inl ⟨fault, m₁, rfl, perform_without_some (blind_meaning hmake hb) hle hfit hp⟩
  | (none, m₁) =>
    obtain ⟨front, hqueue, hp'⟩ := perform_without_none (blind_meaning hmake hb) hle hfit hp
    obtain ⟨m₂, -, ho, rfl⟩ := perform_eq_none.mp hp
    exact .inr ⟨_, _, rfl, hp', hqueue ▸ h.append front, rfl, ho⟩

/-! ### Strides -/

/-- Some turns of the one machine and some of the other. With fewer they have done nothing yet; then
they have ended alike, or can go on as they are. -/
structure Stride (make : Task.Factory σ α) (made : α → α)
    (mean : α → Frame → Work σ (Task α) Unit) (m : Machine σ (Task α))
    (q' : List (Entry (Task α))) (n n' : Nat) : Prop where
  few : ∀ f < n, Agrees (Task.meaning make mean) m (m.without q') f 0
  few' : ∀ f' < n', Agrees (Task.meaning make mean) m (m.without q') 0 f'
  enough : (∀ f f', Agrees (Task.meaning make mean) m (m.without q') (n + f) (n' + f')) ∨
    0 < n ∧ 0 < n' ∧ ∃ m₁ q₁', Folded make made mean m₁ q₁' ∧
      ∀ f f', Agrees (Task.meaning make mean) m₁ (m₁.without q₁') f f' →
        Agrees (Task.meaning make mean) m (m.without q') (n + f) (n' + f')

theorem forall_lt_one {P : Nat → Prop} (h : P 0) : ∀ f < 1, P f := fun f hf => by
  rwa [Nat.lt_one_iff.mp hf]

section Strides

variable {frame : Frame} {stamp : UInt32} {a : α} {items : List α} {rest' : List (Entry (Task α))}

/-- An entry that both have is performed by both, or dropped by both. -/
theorem Folded.stride_same (hmake : ∀ a frame, (make frame a).Blind)
    (hb : ∀ a frame, (mean a frame).Blind) (h : Folded make made mean m (e :: rest'))
    (hq : m.queue.toList = e :: rest) (hrest : Unfolds make made rest rest') :
    Stride make made mean m (e :: rest') 1 1 := by
  obtain ⟨-, hs, ho, hr, hr'⟩ := h
  have hzero : Agrees (Task.meaning make mean) m (m.without (e :: rest')) 0 0 :=
    agrees_unfinished hq rfl
  refine ⟨forall_lt_one hzero, forall_lt_one hzero, ?_⟩
  simp only [Nat.add_comm 1]
  cases hl : m.isLive e with
  | false =>
    refine .inr ⟨Nat.one_pos, Nat.one_pos, m.without rest, rest',
      ⟨hrest, hs, ho, hr.dropped hq hl, hr'.dropped rfl hl⟩, fun f f' h => ?_⟩
    have hl' : (m.without (e :: rest')).isLive e = false := hl
    exact ((h.dropped hq hl).symm.dropped rfl hl').symm
  | true =>
    rcases perform_unfolds hmake hb hrest (hr'.turn rfl hl) with
      ⟨fault, m₁, hp, hp'⟩ | ⟨m₁, q₁', hp, hp', hunfolds, hs₁, ho₁⟩
    · exact .inl fun f f' => agrees_failed hq hl hp rfl hl hp' rfl
    · exact .inr ⟨Nat.one_pos, Nat.one_pos, m₁, q₁',
        ⟨hunfolds, hs₁, ho₁, hr.performed hq hl hp, hr'.performed rfl hl hp'⟩,
        fun f f' h => h.performed hq hl hp rfl hl hp' rfl⟩

/-- The one drops a dead fan-out, the other drops every item. -/
theorem Folded.stride_dead
    (h : Folded make made mean m (frame.entries stamp (Task.acts made (a :: items)) ++ rest'))
    (hq : m.queue.toList = ⟨frame, stamp, .fan (a :: items)⟩ :: rest)
    (hl : m.isLive ⟨frame, stamp, .fan (a :: items)⟩ = false)
    (hrest : Unfolds make made rest rest') :
    Stride make made mean m (frame.entries stamp (Task.acts made (a :: items)) ++ rest') 1
      (frame.entries stamp (Task.acts made (a :: items))).length := by
  obtain ⟨-, hs, ho, hr, hr'⟩ := h
  have hdead : ∀ e ∈ frame.entries stamp (Task.acts made (a :: items)), m.isLive e = false := by
    intro e he
    obtain ⟨hframe, hstamp⟩ := Frame.mem_entries he
    rw [← hl]
    unfold isLive
    rw [hframe, hstamp]
  have hdead' : ∀ e ∈ frame.entries stamp (Task.acts made (a :: items)), (m.without
      (frame.entries stamp (Task.acts made (a :: items)) ++ rest')).isLive e = false := hdead
  refine ⟨forall_lt_one (agrees_unfinished hq rfl), fun f hf => ?_,
    .inr ⟨Nat.one_pos, Nat.succ_pos _, m.without rest, rest',
      ⟨hrest, hs, ho, hr.dropped hq hl, hr'.dead hdead' rfl⟩, fun f f' h => ?_⟩⟩
  · exact (agrees_dead_unfinished hdead' rfl hf hq).symm
  · rw [Nat.add_comm 1]
    exact (agrees_dead hdead' rfl (h.dropped hq hl).symm).symm

/-- The one unfolds a fan-out, and then both perform its next item. -/
theorem Folded.stride_fan (hmake : ∀ a frame, (make frame a).Blind)
    (hb : ∀ a frame, (mean a frame).Blind)
    (h : Folded make made mean m (frame.entries stamp (Task.acts made (a :: items)) ++ rest'))
    (hq : m.queue.toList = ⟨frame, stamp, .fan (a :: items)⟩ :: rest)
    (hl : m.isLive ⟨frame, stamp, .fan (a :: items)⟩ = true)
    (hmakes : Task.Makes make made (a :: items)) (hrest : Unfolds make made rest rest') :
    Stride make made mean m (frame.entries stamp (Task.acts made (a :: items)) ++ rest') 2 1 := by
  obtain ⟨-, hs, ho, hr, hr'⟩ := h
  have hcons : frame.entries stamp (Task.acts made (a :: items)) ++ rest' =
    ⟨frame, stamp, .act (made a)⟩ :: (frame.entries stamp (Task.acts made items) ++ rest') := rfl
  have hp := perform_fan rfl hmakes hl hs ho (hr.turn hq hl)
  obtain ⟨more, hmore, hnext⟩ : ∃ more,
      frame.entries stamp ((Task.unfolded (a :: items)).map (Task.retold made)) ++ rest =
        ⟨frame, stamp, .act (made a)⟩ :: more ∧
      Unfolds make made more (frame.entries stamp (Task.acts made items) ++ rest') := by
    cases items with
    | nil => exact ⟨rest, rfl, hrest⟩
    | cons b items => exact ⟨_, rfl, .fan _ stamp hmakes.tail hrest⟩
  rw [hmore] at hp
  have hr₁ := hr.performed hq hl hp
  refine ⟨fun f hf => ?_, forall_lt_one (agrees_unfinished hq hcons), ?_⟩
  · cases f with
    | zero => exact agrees_unfinished hq hcons
    | succ f =>
      have hf : f = 0 := by omega
      subst hf
      exact (agrees_unfinished rfl hcons).unfolded hq hl rfl hp
  have hl₁ : ((m.begin ⟨frame, stamp, .fan (a :: items)⟩ rest).without
      (⟨frame, stamp, .act (made a)⟩ :: more)).isLive ⟨frame, stamp, .act (made a)⟩ = true := hl
  have hl' : (m.without (frame.entries stamp (Task.acts made (a :: items)) ++ rest')).isLive
      ⟨frame, stamp, .act (made a)⟩ = true := hl
  have hbegin : ((m.begin ⟨frame, stamp, .fan (a :: items)⟩ rest).without
      (⟨frame, stamp, .act (made a)⟩ :: more)).begin ⟨frame, stamp, .act (made a)⟩ more =
        m.begin ⟨frame, stamp, .act (made a)⟩ more := begin_unfolded rfl _ more
  have htwo (f : Nat) : 2 + f = f + 1 + 1 := by omega
  simp only [htwo, Nat.add_comm 1]
  rcases perform_unfolds hmake hb hnext (hr'.turn hcons hl) with
    ⟨fault, m₁, hp₁, hp'⟩ | ⟨m₁, q₁', hp₁, hp', hunfolds, hs₁, ho₁⟩
  · rw [← hbegin] at hp₁
    exact .inl fun f f' => (agrees_failed rfl hl₁ hp₁ hcons hl' hp' rfl).unfolded hq hl rfl hp
  · rw [← hbegin] at hp₁
    exact .inr ⟨Nat.two_pos, Nat.one_pos, m₁, q₁', ⟨hunfolds, hs₁, ho₁,
      hr₁.performed rfl hl hp₁, hr'.performed hcons hl hp'⟩,
      fun f f' h => (h.performed rfl hl₁ hp₁ hcons hl' hp' rfl).unfolded hq hl rfl hp⟩

end Strides

/-- The two machines take one stride after another, in each of which the same action is performed,
or none. -/
theorem Folded.stride (hmake : ∀ a frame, (make frame a).Blind)
    (hb : ∀ a frame, (mean a frame).Blind) (h : Folded make made mean m q') :
    ∃ n n', Stride make made mean m q' n n' := by
  have hunfolds := h.unfolds
  generalize hq : m.queue.toList = q at hunfolds
  cases hunfolds with
  | nil =>
    refine ⟨0, 0, fun _ hf => absurd hf (Nat.not_lt_zero _),
      fun _ hf => absurd hf (Nat.not_lt_zero _), .inl fun _ _ => ?_⟩
    rw [without_queue hq]
    exact agrees_finished hq
  | same e hrest => exact ⟨1, 1, h.stride_same hmake hb hq hrest⟩
  | fan frame stamp hmakes hrest =>
    cases hl : m.isLive ⟨frame, stamp, .fan _⟩ with
    | false => exact ⟨1, _, h.stride_dead hq hl hrest⟩
    | true => exact ⟨2, 1, h.stride_fan hmake hb hq hl hmakes hrest⟩

theorem Folded.agrees (hmake : ∀ a frame, (make frame a).Blind)
    (hb : ∀ a frame, (mean a frame).Blind) (fuel : Nat) (h : Folded make made mean m q') :
    ∃ fuel', Agrees (Task.meaning make mean) m (m.without q') fuel fuel' := by
  induction fuel using Nat.strongRecOn generalizing m q' with
  | ind fuel ih =>
    obtain ⟨n, n', hfew, -, henough⟩ := h.stride hmake hb
    by_cases hless : fuel < n
    · exact ⟨0, hfew fuel hless⟩
    · obtain ⟨f, rfl⟩ := Nat.exists_eq_add_of_le (Nat.not_lt.mp hless)
      rcases henough with hends | ⟨hn, -, m₁, q₁', hfolded, hnext⟩
      · exact ⟨n' + 0, hends f 0⟩
      · obtain ⟨f', hagrees⟩ := ih f (by omega) hfolded
        exact ⟨n' + f', hnext f f' hagrees⟩

theorem Folded.agrees' (hmake : ∀ a frame, (make frame a).Blind)
    (hb : ∀ a frame, (mean a frame).Blind) (fuel' : Nat) (h : Folded make made mean m q') :
    ∃ fuel, Agrees (Task.meaning make mean) m (m.without q') fuel fuel' := by
  induction fuel' using Nat.strongRecOn generalizing m q' with
  | ind fuel' ih =>
    obtain ⟨n, n', -, hfew', henough⟩ := h.stride hmake hb
    by_cases hless : fuel' < n'
    · exact ⟨0, hfew' fuel' hless⟩
    · obtain ⟨f', rfl⟩ := Nat.exists_eq_add_of_le (Nat.not_lt.mp hless)
      rcases henough with hends | ⟨-, hn, m₁, q₁', hfolded, hnext⟩
      · exact ⟨n + 0, hends 0 f'⟩
      · obtain ⟨f, hagrees⟩ := ih f' (by omega) hfolded
        exact ⟨n + f, hnext f f' hagrees⟩

end Machine

end Trampoline
