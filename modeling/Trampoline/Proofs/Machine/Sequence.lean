import Trampoline.Journal
import Trampoline.Proofs.Machine.History

/-! Running one list of entries after another.

Entries that wait behind others are not touched by them: whatever an entry spawns
goes in front. So a run with `q` behind the queue takes the turns of the run
without it (`Course.lift`) and comes to `q` only when that run has finished
(`Course.split`). An entry could notice what waits behind it in two ways: by asking
for the number of waiting entries, which blind work does not do, or by running
into the queue limit, which a machine that fits never does.

`runs_stageAll_append`: running `q₁ ++ q₂` is running `q₁` and then, only if that
finished, running `q₂` on the machine it left. -/
namespace Trampoline

namespace Work

variable {σ α β γ : Type}

/-- Work that never asks how many entries wait. -/
def Blind : Work σ α β → Prop
  | .done _ => True
  | .abort _ => True
  | .charge _ next => ∀ result, (next result).Blind
  | .stage _ next => (next ()).Blind
  | .discard _ next => (next ()).Blind
  | .govern _ next => ∀ g, (next g).Blind
  | .update _ next => (next ()).Blind
  | .observe next => ∀ s, (next s).Blind
  | .generation _ next => ∀ n, (next n).Blind
  | .depth next => ∀ n, (next n).Blind
  | .cost next => ∀ n, (next n).Blind
  | .forkLimit next => ∀ n, (next n).Blind
  | .pending _ => False

theorem Blind.bind {w : Work σ α β} {f : β → Work σ α γ} (hw : w.Blind) (hf : ∀ b, (f b).Blind) :
    (w >>= f).Blind := by
  change (w.bind f).Blind
  induction w with
  | done b => exact hf b
  | abort fault => trivial
  | charge units next ih => exact fun result => ih result (hw result)
  | stage e next ih => exact ih () hw
  | discard g next ih => exact ih () hw
  | govern d next ih => exact fun g => ih g (hw g)
  | update change next ih => exact ih () hw
  | observe next ih => exact fun s => ih s (hw s)
  | generation g next ih => exact fun n => ih n (hw n)
  | depth next ih => exact fun n => ih n (hw n)
  | cost next ih => exact fun n => ih n (hw n)
  | forkLimit next ih => exact fun n => ih n (hw n)
  | pending next ih => exact hw.elim

theorem blind_enqueue (frame : Frame) (action : α) : (enqueue frame action : Work σ α Unit).Blind :=
  fun _ => trivial

end Work

namespace Machine

variable {σ α β : Type}

/-! ### Entries behind the queue -/

/-- The machine with more entries behind its queue. -/
def followedBy (m : Machine σ α) (q : List (Entry α)) : Machine σ α :=
  { m with queue := .ofList (m.queue.toList ++ q) }

/-- Queueing an entry within the limit raises no flag. -/
theorem stage_of_pending_le (m : Machine σ α) (e : Entry α)
    (h : (m.stage e).pending ≤ m.limits.queue) : m.stage e = { m with staged := m.staged.push e } := by
  have hfits : decide (m.limits.queue < (m.stage e).pending) = false :=
    decide_eq_false (Nat.not_lt.mpr h)
  rw [stage]
  exact congrArg (fun o => { m with staged := m.staged.push e, overflow := o })
    ((congrArg (m.overflow || ·) hfits).trans (Bool.or_false _))

/-- Queues entries, one after another. -/
def stageAll (m : Machine σ α) (q : List (Entry α)) : Machine σ α := q.foldl stage m

/-- Entries that fit are staged and nothing else happens. -/
theorem stageAll_of_fits (m : Machine σ α) (q : List (Entry α))
    (h : m.pending + q.length ≤ m.limits.queue) :
    m.stageAll q = { m with staged := .ofList (q.reverse ++ m.staged.toList) } := by
  induction q generalizing m with
  | nil =>
    have hs : m.staged = .ofList ([].reverse ++ m.staged.toList) := Backlog.ext_toList rfl
    rw [← hs]
    rfl
  | cons e q ih =>
    have hpending : (m.stage e).pending = m.pending + 1 := rfl
    rw [List.length_cons] at h
    change (m.stage e).stageAll q = _
    rw [ih (m.stage e) (by rw [hpending]; exact Nat.le_trans (by omega) h),
      stage_of_pending_le m e (by rw [hpending]; omega)]
    simp only [Backlog.toList_push, List.reverse_cons, List.append_assoc, List.singleton_append]

/-- An idle machine with staged entries that fit is about to run them in order. -/
theorem splice_stageAll (m : Machine σ α) (q : List (Entry α)) (hidle : m.pending = 0)
    (h : q.length ≤ m.limits.queue) : (m.stageAll q).splice = (m.stageAll []).splice.followedBy q := by
  obtain ⟨hqueue, hstaged⟩ : m.queue.toList = [] ∧ m.staged.toList = [] := by
    simp only [pending, m.queue.size_eq, m.staged.size_eq, Nat.add_eq_zero_iff,
      List.length_eq_zero_iff] at hidle
    exact hidle
  rw [stageAll_of_fits m q (by omega)]
  simp only [splice, followedBy, stageAll, List.foldl_nil]
  congr 1
  exact Backlog.ext_toList (by simp [hqueue, hstaged])

theorem followedBy_append (m : Machine σ α) (q₁ q₂ : List (Entry α)) :
    m.followedBy (q₁ ++ q₂) = (m.followedBy q₁).followedBy q₂ := by
  simp only [followedBy, Backlog.toList_ofList, List.append_assoc]

theorem queue_followedBy_cons {m : Machine σ α} {e : Entry α} {rest q : List (Entry α)}
    (hq : (m.followedBy q).queue.toList = e :: rest) :
    m.queue.toList = [] ∨ ∃ rest', m.queue.toList = e :: rest' ∧ rest = rest' ++ q := by
  cases hm : m.queue.toList with
  | nil => exact .inl rfl
  | cons e' rest' =>
    have hcons : e' :: rest' ++ q = e :: rest := hm ▸ hq
    obtain ⟨rfl, rfl⟩ := List.cons.inj hcons
    exact .inr ⟨rest', rfl, rfl⟩

/-- An entry is queued alike in front of a longer queue, as long as that keeps within the limit. -/
theorem stage_without (m : Machine σ α) {q : List (Entry α)} (hle : m.queue.size ≤ q.length)
    (e : Entry α) (h : ((m.without q).stage e).pending ≤ m.limits.queue) :
    (m.without q).stage e = (m.stage e).without q := by
  have hless : (m.stage e).pending ≤ ((m.without q).stage e).pending := by
    simp only [pending, stage, without, Backlog.size_ofList, Backlog.size_push]
    omega
  rw [stage_of_pending_le _ _ h, stage_of_pending_le _ _ (Nat.le_trans hless h)]
  rfl

theorem splice_without (m : Machine σ α) (q : List (Entry α)) :
    (m.without q).splice = m.splice.without (m.staged.toList.reverse ++ q) := by
  have hq : m.staged.splice (.ofList q) = .ofList (m.staged.toList.reverse ++ q) :=
    Backlog.ext_toList (by simp only [Backlog.toList_splice, Backlog.toList_ofList])
  simp only [splice, without, hq]

/-- What else waits makes no difference to blind work that does not reach the queue limit. -/
theorem exec_without {w : Work σ α β} (hb : w.Blind) (m : Machine σ α) {q : List (Entry α)}
    (hle : m.queue.size ≤ q.length) (h : (w.history (m.without q)).peak ≤ m.limits.queue) :
    w.exec (m.without q) = ((w.exec m).1, (w.exec m).2.without q) := by
  induction w generalizing m with
  | done b => rfl
  | abort fault => rfl
  | charge units next ih => exact ih _ (hb _) (m.charge units).2 hle h
  | stage e next ih =>
    obtain ⟨hstage, hrest⟩ := Nat.max_le.mp h
    change (next ()).exec ((m.without q).stage e) = _
    rw [stage_without m hle e hstage] at hrest ⊢
    exact ih _ hb _ hle hrest
  | discard g next ih => exact ih _ hb (m.discard g) hle h
  | govern d next ih => exact ih _ (hb _) (m.govern d).2 hle h
  | update change next ih => exact ih _ hb { m with world := change m.world } hle h
  | observe next ih => exact ih _ (hb _) m hle h
  | generation g next ih => exact ih _ (hb _) m hle h
  | depth next ih => exact ih _ (hb _) m hle h
  | cost next ih => exact ih _ (hb _) m hle h
  | forkLimit next ih => exact ih _ (hb _) m hle h
  | pending next ih => exact hb.elim

/-- With `q` behind it, the queue is the longer one. -/
theorem size_queue_le (m : Machine σ α) (q : List (Entry α)) :
    m.queue.size ≤ (m.queue.toList ++ q).length := by
  rw [List.length_append, m.queue.size_eq]
  exact Nat.le_add_right ..

variable [Audience σ] {mean : α → Frame → Work σ α Unit} {m m' m₁ : Machine σ α} {e : Entry α}
  {rest q : List (Entry α)} {ending : Ending} {fault : Fault} {h : History σ α}

/-- A turn that ends well puts the same entries in front of either queue. -/
theorem perform_without_none (hb : ∀ a frame, (mean a frame).Blind) (hle : m.queue.size ≤ q.length)
    (hfit : ((mean e.action e.frame).history (m.without q)).peak ≤ m.limits.queue)
    (hp : perform mean m e = (none, m₁)) :
    ∃ front, m₁.queue.toList = front ++ m.queue.toList ∧
      perform mean (m.without q) e = (none, m₁.without (front ++ q)) := by
  obtain ⟨m₂, hx, ho, rfl⟩ := perform_eq_none.mp hp
  have hx' := exec_without (hb e.action e.frame) m hle hfit
  have hqueue := Work.queue_exec (mean e.action e.frame) m
  rw [hx] at hx' hqueue
  refine ⟨m₂.staged.toList.reverse, ?_, ?_⟩
  · rw [show m.queue = m₂.queue from hqueue.symm]
    exact Backlog.toList_splice ..
  · exact perform_eq_none.mpr ⟨m₂.without q, hx', ho, (splice_without m₂ q).symm⟩

/-- A fault forgets whatever waits. -/
theorem perform_without_some (hb : ∀ a frame, (mean a frame).Blind) (hle : m.queue.size ≤ q.length)
    (hfit : ((mean e.action e.frame).history (m.without q)).peak ≤ m.limits.queue)
    (hp : perform mean m e = (some fault, m₁)) :
    perform mean (m.without q) e = (some fault, m₁) := by
  have hx' := exec_without (hb e.action e.frame) m hle hfit
  match hx : (mean e.action e.frame).exec m with
  | (.error _, m₂) =>
    rw [hx] at hx'
    rw [perform_of_error hx] at hp
    rw [perform_of_error hx']
    exact hp
  | (.ok (), m₂) =>
    rw [hx] at hx'
    rw [perform_of_ok hx] at hp
    rw [perform_of_ok hx']
    cases ho : m₂.overflow with
    | false =>
      rw [ho, if_neg Bool.false_ne_true] at hp
      cases hp
    | true =>
      rw [ho, if_pos rfl] at hp
      rw [show (m₂.without q).overflow = true from ho, if_pos rfl]
      exact hp

theorem perform_followedBy_none (hb : ∀ a frame, (mean a frame).Blind)
    (hfit : ((mean e.action e.frame).history (m.followedBy q)).peak ≤ m.limits.queue)
    (hp : perform mean m e = (none, m₁)) :
    perform mean (m.followedBy q) e = (none, m₁.followedBy q) := by
  obtain ⟨front, hqueue, hp'⟩ := perform_without_none hb (size_queue_le m q) hfit hp
  rw [← List.append_assoc, ← hqueue] at hp'
  exact hp'

theorem perform_followedBy_some (hb : ∀ a frame, (mean a frame).Blind)
    (hfit : ((mean e.action e.frame).history (m.followedBy q)).peak ≤ m.limits.queue)
    (hp : perform mean m e = (some fault, m₁)) :
    perform mean (m.followedBy q) e = (some fault, m₁) :=
  perform_without_some hb (size_queue_le m q) hfit hp

/-- What a turn does with `q` behind it tells what it does without. -/
theorem perform_of_followedBy (hb : ∀ a frame, (mean a frame).Blind)
    (hfit : ((mean e.action e.frame).history (m.followedBy q)).peak ≤ m.limits.queue)
    {result : Option Fault} {M : Machine σ α}
    (hp : perform mean (m.followedBy q) e = (result, M)) :
    match result with
    | none => ∃ m₁, perform mean m e = (none, m₁) ∧ M = m₁.followedBy q
    | some fault => perform mean m e = (some fault, M) := by
  match hp' : perform mean m e with
  | (none, m₁) =>
    cases (perform_followedBy_none hb hfit hp').symm.trans hp
    exact ⟨m₁, rfl, rfl⟩
  | (some fault, m₁) =>
    cases (perform_followedBy_some hb hfit hp').symm.trans hp
    rfl

/-! ### Machines that fit -/

/-- From here on no push goes past the queue limit. -/
def Roomy (mean : α → Frame → Work σ α Unit) (m : Machine σ α) : Prop :=
  ∀ fuel, (m.history mean fuel).peak ≤ m.limits.queue

theorem Roomy.dropped (hr : m.Roomy mean) (hq : m.queue.toList = e :: rest)
    (hl : m.isLive e = false) : (m.without rest).Roomy mean := by
  intro fuel
  have h := hr (fuel + 1)
  rw [history_of_dead hq hl] at h
  exact h

/-- The work of the next live entry fits. -/
theorem Roomy.turn (hr : m.Roomy mean) (hq : m.queue.toList = e :: rest)
    (hl : m.isLive e = true) :
    ((mean e.action e.frame).history (m.begin e rest)).peak ≤ m.limits.queue := by
  have h := hr 1
  rw [history_of_live hq hl, History.peak_append] at h
  exact Nat.le_trans (Nat.le_max_left ..) h

theorem Roomy.performed (hr : m.Roomy mean) (hq : m.queue.toList = e :: rest)
    (hl : m.isLive e = true) (hp : perform mean (m.begin e rest) e = (none, m₁)) :
    m₁.Roomy mean := by
  intro fuel
  have h := hr (fuel + 1)
  rw [history_of_live hq hl, hp, History.peak_append] at h
  have hlimits : m₁.limits = m.limits := limits_perform hp
  rw [hlimits]
  exact Nat.le_trans (Nat.le_max_right ..) h

theorem Course.limits_eq (c : Course mean m h ending m') : m'.limits = m.limits := by
  induction c with
  | finished hq => rfl
  | dropped hq hl next ih => exact ih
  | performed hq hl hp next ih => exact ih.trans (limits_perform hp)
  | failed hq hl hp => exact limits_perform hp

theorem Course.staged_eq (c : Course mean m h ending m') (hs : m.staged = .empty) :
    m'.staged = .empty := by
  induction c with
  | finished hq => exact hs
  | dropped hq hl next ih => exact ih hs
  | performed hq hl hp next ih => exact ih (staged_perform hp)
  | failed hq hl hp => exact staged_perform hp

/-! ### Lifting and splitting -/

/-- With `q` behind its queue a machine does what it does without, and then runs `q` if it has not
failed. -/
theorem Course.lift (hb : ∀ a frame, (mean a frame).Blind) (c : Course mean m h ending m')
    (hr : (m.followedBy q).Roomy mean) :
    match ending with
    | .finished .. => ∀ h₂ ending₂ m₂, Course mean (m'.followedBy q) h₂ ending₂ m₂ →
      ∃ h', Course mean (m.followedBy q) h' ending₂ m₂ ∧ h'.performed = h.performed ++ h₂.performed
    | _ => ∃ h', Course mean (m.followedBy q) h' ending m' ∧ h'.performed = h.performed := by
  have hcons {m : Machine σ α} {e : Entry α} {rest : List (Entry α)}
      (hq : m.queue.toList = e :: rest) : (m.followedBy q).queue.toList = e :: (rest ++ q) :=
    congrArg (· ++ q) hq
  induction c with
  | finished hq => exact fun h₂ _ _ c₂ => ⟨h₂, c₂, rfl⟩
  | @dropped m m' e rest h ending hq hl next ih =>
    have hnext := ih (hr.dropped (hcons hq) hl)
    cases ending with
    | finished cost deepest =>
      intro h₂ ending₂ m₂ c₂
      obtain ⟨h', c', hh⟩ := hnext h₂ ending₂ m₂ c₂
      exact ⟨_, .dropped (hcons hq) hl c', hh⟩
    | aborted fault =>
      obtain ⟨h', c', hh⟩ := hnext
      exact ⟨_, .dropped (hcons hq) hl c', hh⟩
    | unfinished => exact absurd rfl next.ending_ne
  | @performed m m₁ m' e rest h ending hq hl hp next ih =>
    have hlift := perform_followedBy_none hb (hr.turn (hcons hq) hl) hp
    have hnext := ih (hr.performed (hcons hq) hl hlift)
    cases ending with
    | finished cost deepest =>
      intro h₂ ending₂ m₂ c₂
      obtain ⟨h', c', hh⟩ := hnext h₂ ending₂ m₂ c₂
      refine ⟨_, .performed (hcons hq) hl hlift c', ?_⟩
      rw [performed_turn_append, performed_turn_append, hh, List.cons_append]
    | aborted fault =>
      obtain ⟨h', c', hh⟩ := hnext
      refine ⟨_, .performed (hcons hq) hl hlift c', ?_⟩
      rw [performed_turn_append, performed_turn_append, hh]
    | unfinished => exact absurd rfl next.ending_ne
  | @failed m m' e rest fault hq hl hp =>
    have hlift := perform_followedBy_some hb (hr.turn (hcons hq) hl) hp
    refine ⟨_, .failed (hcons hq) hl hlift, ?_⟩
    rw [performed_turn_append, performed_turn_append]

/-- What the loop does with too little fuel is the beginning of what it does. -/
theorem Course.history_prefix (c : Course mean m h ending m') (fuel : Nat) :
    m.history mean fuel <+: h := by
  induction c generalizing fuel with
  | finished hq => simp [history_of_nil hq]
  | dropped hq hl next ih =>
    cases fuel with
    | zero => exact List.nil_prefix
    | succ fuel =>
      rw [history_of_dead hq hl]
      exact List.cons_prefix_cons.mpr ⟨rfl, ih fuel⟩
  | performed hq hl hp next ih =>
    cases fuel with
    | zero => exact List.nil_prefix
    | succ fuel =>
      rw [history_of_live hq hl, hp]
      exact (List.prefix_append_right_inj _).mpr (ih fuel)
  | failed hq hl hp =>
    cases fuel with
    | zero => exact List.nil_prefix
    | succ fuel => simp [history_of_live hq hl, hp]

/-- A run that comes to its end within the queue limit is one that fits. -/
theorem Course.roomy (c : Course mean m h ending m') (hpeak : h.peak ≤ m.limits.queue) :
    m.Roomy mean := by
  intro fuel
  obtain ⟨rest, rfl⟩ := c.history_prefix fuel
  rw [History.peak_append] at hpeak
  exact Nat.le_trans (Nat.le_max_left ..) hpeak

/-- What the loop does before it comes to the entries behind the queue. -/
theorem Course.split {M : Machine σ α} (hb : ∀ a frame, (mean a frame).Blind)
    (c : Course mean M h ending m') :
    ∀ m, M = m.followedBy q → M.Roomy mean →
      ∃ h₁ ending₁ m₁, Course mean m h₁ ending₁ m₁ ∧
        match ending₁ with
        | .finished .. =>
          ∃ h₂, Course mean (m₁.followedBy q) h₂ ending m' ∧
            h.performed = h₁.performed ++ h₂.performed
        | _ => ending = ending₁ ∧ m' = m₁ ∧ h.performed = h₁.performed := by
  induction c with
  | @finished M hq =>
    rintro m rfl -
    have hm : m.queue.toList = [] := (List.append_eq_nil_iff.mp hq).1
    exact ⟨[], _, m, .finished hm, [], .finished hq, rfl⟩
  | @dropped M M' e rest h ending hq hl next ih =>
    rintro m rfl hr
    rcases queue_followedBy_cons hq with hm | ⟨rest', hm, rfl⟩
    · exact ⟨[], _, m, .finished hm, _, .dropped hq hl next, rfl⟩
    · obtain ⟨h₁, ending₁, m₁, c₁, hrest⟩ := ih (m.without rest') rfl (hr.dropped hq hl)
      exact ⟨_, ending₁, m₁, .dropped hm hl c₁, hrest⟩
  | @performed M M₁ M' e rest h ending hq hl hp next ih =>
    rintro m rfl hr
    rcases queue_followedBy_cons hq with hm | ⟨rest', hm, rfl⟩
    · exact ⟨[], _, m, .finished hm, _, .performed hq hl hp next, rfl⟩
    · obtain ⟨m₂, hp', rfl⟩ := perform_of_followedBy (m := m.begin e rest') hb (hr.turn hq hl) hp
      obtain ⟨h₁, ending₁, m₁, c₁, hrest⟩ := ih m₂ rfl (hr.performed hq hl hp)
      refine ⟨_, ending₁, m₁, .performed hm hl hp' c₁, ?_⟩
      rw [performed_turn_append, performed_turn_append]
      cases ending₁ with
      | finished cost deepest =>
        obtain ⟨h₂, c₂, hh⟩ := hrest
        exact ⟨h₂, c₂, congrArg (List.cons e) hh⟩
      | aborted fault =>
        obtain ⟨he, hm', hh⟩ := hrest
        exact ⟨he, hm', congrArg (List.cons e) hh⟩
      | unfinished => exact absurd rfl c₁.ending_ne
  | @failed M M' e rest fault hq hl hp =>
    rintro m rfl hr
    rcases queue_followedBy_cons hq with hm | ⟨rest', hm, rfl⟩
    · exact ⟨[], _, m, .finished hm, _, .failed hq hl hp, rfl⟩
    · have hp' := perform_of_followedBy (m := m.begin e rest') hb (hr.turn hq hl) hp
      refine ⟨_, _, _, .failed hm hl hp', rfl, rfl, ?_⟩
      rw [performed_turn_append, performed_turn_append]

/-! ### One list after another -/

/-- The machine that the first list leaves is idle again, so the second is spliced in as it is. -/
theorem Course.splice_stageAll {q₁ q₂ : List (Entry α)} {cost deepest : Nat}
    (c : Course mean (m.stageAll q₁).splice h (.finished cost deepest) m₁) (hidle : m.pending = 0)
    (hfit : q₁.length + q₂.length ≤ m.limits.queue) :
    (m₁.stageAll q₂).splice = m₁.followedBy q₂ := by
  have hstaged : m₁.staged = .empty := c.staged_eq rfl
  have hqueue : m₁.queue = .empty := Backlog.eq_empty c.queue_eq
  have hlimits : m₁.limits = m.limits := by
    rw [c.limits_eq, Machine.splice_stageAll m q₁ hidle (by omega)]
    rfl
  have hempty : m₁.pending = 0 := by
    rw [pending, hstaged, hqueue]
    rfl
  rw [Machine.splice_stageAll m₁ q₂ hempty (by rw [hlimits]; omega)]
  congr 1
  obtain ⟨limits, world, cost, queue, staged⟩ := m₁
  subst hstaged
  exact congrArg (fun queue => (⟨_, _, _, queue, _, _, _, _, _, _⟩ : Machine σ α))
    (Backlog.splice_empty queue)

/-- Entries run from an idle machine one list after the other: the second list is run on the
machine that the first one left, and not at all if the first one failed. Nobody can tell the
machine was given both lists at once, as long as it never holds more than it may. -/
theorem runs_stageAll_append (mean : α → Frame → Work σ α Unit)
    (hb : ∀ a frame, (mean a frame).Blind) (m : Machine σ α) (q₁ q₂ : List (Entry α))
    (hidle : m.pending = 0) (hfit : (q₁ ++ q₂).length ≤ m.limits.queue)
    (hroom : (m.stageAll (q₁ ++ q₂)).splice.Roomy mean) (ran : List (Entry α)) (ending : Ending)
    (m' : Machine σ α) :
    (∃ h, (m.stageAll (q₁ ++ q₂)).Runs mean h ending m' ∧ h.performed = ran) ↔
      ∃ h₁ ending₁ m₁, (m.stageAll q₁).Runs mean h₁ ending₁ m₁ ∧
        match ending₁ with
        | .finished .. =>
          ∃ h₂, (m₁.stageAll q₂).Runs mean h₂ ending m' ∧ ran = h₁.performed ++ h₂.performed
        | _ => ending = ending₁ ∧ m' = m₁ ∧ ran = h₁.performed := by
  have hlength : q₁.length + q₂.length ≤ m.limits.queue := List.length_append ▸ hfit
  have hboth : (m.stageAll (q₁ ++ q₂)).splice = (m.stageAll q₁).splice.followedBy q₂ := by
    rw [splice_stageAll m _ hidle hfit, splice_stageAll m q₁ hidle (by omega), followedBy_append]
  rw [hboth] at hroom
  simp only [runs_iff_course, hboth]
  constructor
  · rintro ⟨h, c, rfl⟩
    obtain ⟨h₁, ending₁, m₁, c₁, hrest⟩ := c.split hb _ rfl hroom
    refine ⟨h₁, ending₁, m₁, c₁, ?_⟩
    cases ending₁ with
    | finished cost deepest =>
      obtain ⟨h₂, c₂, hh⟩ := hrest
      exact ⟨h₂, (c₁.splice_stageAll hidle hlength).symm ▸ c₂, hh⟩
    | aborted fault => exact hrest
    | unfinished => exact absurd rfl c₁.ending_ne
  · rintro ⟨h₁, ending₁, m₁, c₁, hrest⟩
    have hlift := c₁.lift hb hroom
    cases ending₁ with
    | finished cost deepest =>
      obtain ⟨h₂, c₂, rfl⟩ := hrest
      exact hlift h₂ ending m' (c₁.splice_stageAll hidle hlength ▸ c₂)
    | aborted fault =>
      obtain ⟨rfl, rfl, rfl⟩ := hrest
      exact hlift
    | unfinished => exact absurd rfl c₁.ending_ne

/-- Queues another entry, or returns from the frame. -/
def relay (again : Bool) (frame : Frame) : Work (Scene Unit) Bool Unit :=
  if again then Work.enqueue frame false else Work.conclude frame (.ok 1)

def relayEntry : Entry Bool := ⟨⟨0, .one "caller", 0⟩, 0, true⟩

def relayMachine : Machine (Scene Unit) Bool :=
  { limits := {}, world := ⟨{}, ()⟩, governors := #[⟨0, 0⟩] }

/-- The same entry twice: what the first queues ends the frame, and so the second is dropped. -/
theorem runs_relay_twice :
    (∀ a frame, (relay a frame).Blind) ∧ relayMachine.pending = 0 ∧
      ([relayEntry] ++ [relayEntry]).length ≤ relayMachine.limits.queue ∧
      (relayMachine.stageAll ([relayEntry] ++ [relayEntry])).splice.Roomy relay ∧
      ∃ h, (relayMachine.stageAll ([relayEntry] ++ [relayEntry])).Runs relay h (.finished 0 0)
          ((relayMachine.stageAll ([relayEntry] ++ [relayEntry])).run relay 3).2 ∧
        h.performed = [relayEntry, { relayEntry with action := false }] := by
  have hb : ∀ a frame, (relay a frame).Blind := by
    intro a frame
    cases a with
    | true => exact Work.blind_enqueue frame false
    | false => trivial
  have hends : (relayMachine.stageAll ([relayEntry] ++ [relayEntry])).run relay 3 =
      (.finished 0 0, ((relayMachine.stageAll ([relayEntry] ++ [relayEntry])).run relay 3).2) := rfl
  have hroom : (relayMachine.stageAll ([relayEntry] ++ [relayEntry])).splice.Roomy relay :=
    (course_of_drain hends (by decide)).roomy (by decide)
  refine ⟨hb, rfl, by decide, hroom, ?_⟩
  refine (runs_stageAll_append relay hb relayMachine _ _ rfl (by decide) hroom _ _ _).mpr ?_
  exact ⟨_, .finished 0 0, _, ⟨by decide, 3, rfl, rfl⟩, _, ⟨by decide, 3, rfl, rfl⟩, rfl⟩

end Machine

end Trampoline
