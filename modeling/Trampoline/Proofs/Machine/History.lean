import Trampoline.Proofs.Machine.Exec

/-! The history of a run.

A history lists what a run does, each operation with the machine right after it.
So everything that is said of a whole run is said of its history: which entries
were performed, how often a governor was discarded, how many entries ever waited.

`Runs mean m h ending m'` is a run that comes to its end, whatever fuel it is
given as long as it is enough. `Course` is the same loop as a derivation, one rule
for each way a turn of it can go, and `runs_iff_course` ties the two; what holds of
runs is proved by induction over it. A machine has one run at most (`Runs.unique`). -/
namespace Trampoline

/-- One thing that a run does. -/
inductive Mark (α : Type) where
  /-- A live entry is taken off the queue and performed. -/
  | begun (entry : Entry α)
  /-- A dead entry is taken off the queue. -/
  | dropped (entry : Entry α)
  | charged (units : Nat)
  | queued (entry : Entry α)
  | discarded (governor : GovernorId)
  | governed (depth : Nat)
  | changed
  | aborted (fault : Fault)

abbrev History (σ α : Type) := List (Mark α × Machine σ α)

namespace History

variable {σ α : Type}

/-- The entries performed, in order. -/
def performed (h : History σ α) : List (Entry α) :=
  h.filterMap fun
    | (.begun e, _) => some e
    | _ => none

/-- The number of entries taken off the queue. -/
def turns (h : History σ α) : Nat :=
  h.countP fun
    | (.begun _, _) => true
    | (.dropped _, _) => true
    | _ => false

/-- How often a governor's work was discarded. -/
def discards (g : GovernorId) (h : History σ α) : Nat :=
  h.countP fun
    | (.discarded g', _) => g' == g
    | _ => false

/-- The largest number of entries that waited right after one was queued. -/
def peak (h : History σ α) : Nat :=
  h.foldr (fun
    | (.queued .., m), n => max m.pending n
    | _, n => n) 0

theorem performed_append (a b : History σ α) : performed (a ++ b) = performed a ++ performed b :=
  List.filterMap_append

theorem turns_append (a b : History σ α) : turns (a ++ b) = turns a + turns b := List.countP_append

theorem discards_append (g : GovernorId) (a b : History σ α) :
    discards g (a ++ b) = discards g a + discards g b := List.countP_append

theorem discards_cons_discarded (g g' : GovernorId) (m : Machine σ α) (h : History σ α) :
    discards g ((.discarded g', m) :: h) = (if g = g' then 1 else 0) + discards g h := by
  unfold discards
  rw [List.countP_cons, Nat.add_comm]
  by_cases hg : g = g'
  · simp [hg]
  · simp [hg, Ne.symm hg]

theorem discards_le_length (g : GovernorId) (h : History σ α) : discards g h ≤ h.length :=
  List.countP_le_length

theorem peak_append (a b : History σ α) : peak (a ++ b) = max (peak a) (peak b) := by
  induction a with
  | nil => exact (Nat.zero_max _).symm
  | cons x rest ih =>
    obtain ⟨mark, m⟩ := x
    cases mark <;> first | exact ih | skip
    change max m.pending (peak (rest ++ b)) = max (max m.pending (peak rest)) (peak b)
    rw [ih, Nat.max_assoc]

end History

namespace Work

variable {σ α β γ : Type}

/-- What work does on a machine. -/
def history : Work σ α β → Machine σ α → History σ α
  | .done _, _ => []
  | .abort _, _ => []
  | .charge units next, m =>
    let (result, m) := m.charge units
    (.charged units, m) :: (next result).history m
  | .stage e next, m =>
    let m := m.stage e
    (.queued e, m) :: (next ()).history m
  | .discard g next, m =>
    let m := m.discard g
    (.discarded g, m) :: (next ()).history m
  | .govern d next, m =>
    let (g, m) := m.govern d
    (.governed d, m) :: (next g).history m
  | .update change next, m =>
    let m := { m with world := change m.world }
    (.changed, m) :: (next ()).history m
  | .observe next, m => (next m.world).history m
  | .generation g next, m => (next (m.generation g)).history m
  | .depth next, m => (next m.depth).history m
  | .cost next, m => (next m.cost).history m
  | .forkLimit next, m => (next m.limits.forks).history m
  | .pending next, m => (next m.pending).history m

theorem history_bind (w : Work σ α β) (f : β → Work σ α γ) (m : Machine σ α) :
    (w >>= f).history m =
      w.history m ++ match w.exec m with
        | (.ok b, m) => (f b).history m
        | (.error _, _) => [] := by
  change (w.bind f).history m = _
  induction w generalizing m with
  | done b => rfl
  | abort fault => rfl
  | charge units next ih => exact congrArg (List.cons _) (ih _ _)
  | stage e next ih => exact congrArg (List.cons _) (ih _ _)
  | discard g next ih => exact congrArg (List.cons _) (ih _ _)
  | govern d next ih => exact congrArg (List.cons _) (ih _ _)
  | update change next ih => exact congrArg (List.cons _) (ih _ _)
  | observe next ih => exact ih _ _
  | generation g next ih => exact ih _ _
  | depth next ih => exact ih _ _
  | cost next ih => exact ih _ _
  | forkLimit next ih => exact ih _ _
  | pending next ih => exact ih _ _

/-- The last step discards nothing. -/
theorem discards_ensuring (last : σ → σ) (w : Work σ α β) (m : Machine σ α) (g : GovernorId) :
    ((w.ensuring last).history m).discards g = (w.history m).discards g := by
  induction w generalizing m with
  | done b => rfl
  | abort fault => rfl
  | charge units next ih => exact ih _ _
  | stage e next ih => exact ih _ _
  | discard g' next ih =>
    have h := ih () (m.discard g')
    simp only [History.discards] at h
    simp only [ensuring, history, History.discards, List.countP_cons, h]
  | govern d next ih => exact ih _ _
  | update change next ih => exact ih _ _
  | observe next ih => exact ih _ _
  | generation g' next ih => exact ih _ _
  | depth next ih => exact ih _ _
  | cost next ih => exact ih _ _
  | forkLimit next ih => exact ih _ _
  | pending next ih => exact ih _ _

/-- What every operation keeps holds all along. -/
theorem history_keeps {P : Machine σ α → Prop} (hP : Kept P) (w : Work σ α β) (m : Machine σ α)
    (h : P m) : ∀ x ∈ w.history m, P x.2 := by
  induction w generalizing m with
  | done b => exact fun _ hx => absurd hx List.not_mem_nil
  | abort fault => exact fun _ hx => absurd hx List.not_mem_nil
  | charge units next ih =>
    have h' := hP.charge m units h
    exact List.forall_mem_cons.mpr ⟨h', ih _ _ h'⟩
  | stage e next ih =>
    have h' := hP.stage m e h
    exact List.forall_mem_cons.mpr ⟨h', ih _ _ h'⟩
  | discard g next ih =>
    have h' := hP.discard m g h
    exact List.forall_mem_cons.mpr ⟨h', ih _ _ h'⟩
  | govern d next ih =>
    have h' := hP.govern m d h
    exact List.forall_mem_cons.mpr ⟨h', ih _ _ h'⟩
  | update change next ih =>
    have h' := hP.change m (change m.world) h
    exact List.forall_mem_cons.mpr ⟨h', ih _ _ h'⟩
  | observe next ih => exact ih _ _ h
  | generation g next ih => exact ih _ _ h
  | depth next ih => exact ih _ _ h
  | cost next ih => exact ih _ _ h
  | forkLimit next ih => exact ih _ _ h
  | pending next ih => exact ih _ _ h

/-- Only the loop takes entries off the queue. -/
theorem history_no_turns (w : Work σ α β) (m : Machine σ α) :
    (w.history m).performed = [] ∧ (w.history m).turns = 0 := by
  induction w generalizing m with
  | done b => exact ⟨rfl, rfl⟩
  | abort fault => exact ⟨rfl, rfl⟩
  | charge units next ih => exact ih _ _
  | stage e next ih => exact ih _ _
  | discard g next ih => exact ih _ _
  | govern d next ih => exact ih _ _
  | update change next ih => exact ih _ _
  | observe next ih => exact ih _ _
  | generation g next ih => exact ih _ _
  | depth next ih => exact ih _ _
  | cost next ih => exact ih _ _
  | forkLimit next ih => exact ih _ _
  | pending next ih => exact ih _ _

/-- Work never takes back what it queued; so its peak comes with the last it queues. -/
theorem peak_history (w : Work σ α β) (m : Machine σ α) :
    m.pending ≤ (w.exec m).2.pending ∧
      (w.history m).peak =
        if (w.exec m).2.pending = m.pending then 0 else (w.exec m).2.pending := by
  induction w generalizing m with
  | done b => exact ⟨Nat.le_refl _, (if_pos rfl).symm⟩
  | abort fault => exact ⟨Nat.le_refl _, (if_pos rfl).symm⟩
  | charge units next ih => exact ih _ (m.charge units).2
  | stage e next ih =>
    obtain ⟨hle, hpeak⟩ := ih () (m.stage e)
    have hstage : (m.stage e).pending = m.pending + 1 := rfl
    have hcons : ((Work.stage e next).history m).peak =
      max (m.stage e).pending ((next ()).history (m.stage e)).peak := rfl
    rw [hstage] at hle hpeak hcons
    rw [hcons, hpeak, exec]
    generalize ((next ()).exec (m.stage e)).2.pending = waiting at hle ⊢
    refine ⟨by omega, ?_⟩
    rw [if_neg (show waiting ≠ m.pending by omega)]
    by_cases hlast : waiting = m.pending + 1
    · rw [if_pos hlast, hlast, Nat.max_zero]
    · rw [if_neg hlast, Nat.max_eq_right hle]
  | discard g next ih => exact ih _ (m.discard g)
  | govern d next ih => exact ih _ (m.govern d).2
  | update change next ih => exact ih _ { m with world := change m.world }
  | observe next ih => exact ih _ _
  | generation g next ih => exact ih _ _
  | depth next ih => exact ih _ _
  | cost next ih => exact ih _ _
  | forkLimit next ih => exact ih _ _
  | pending next ih => exact ih _ _

/-- The flag goes up exactly if the peak is past the limit. -/
theorem overflow_exec (w : Work σ α β) (m : Machine σ α) :
    (w.exec m).2.overflow =
      (m.overflow || decide (m.limits.queue < (w.history m).peak)) := by
  induction w generalizing m with
  | done b => exact (Bool.or_false _).symm
  | abort fault => exact (Bool.or_false _).symm
  | charge units next ih => exact ih _ _
  | stage e next ih =>
    have hflag : (m.stage e).overflow =
        (m.overflow || decide (m.limits.queue < (m.stage e).pending)) := rfl
    have hcons : ((Work.stage e next).history m).peak =
      max (m.stage e).pending ((next ()).history (m.stage e)).peak := rfl
    have hlimits : (m.stage e).limits = m.limits := rfl
    rw [exec, ih, hflag, hcons, hlimits, Bool.or_assoc, ← Bool.decide_or]
    exact congrArg _ (decide_eq_decide.mpr (by omega))
  | discard g next ih => exact ih _ _
  | govern d next ih => exact ih _ _
  | update change next ih => exact ih _ _
  | observe next ih => exact ih _ _
  | generation g next ih => exact ih _ _
  | depth next ih => exact ih _ _
  | cost next ih => exact ih _ _
  | forkLimit next ih => exact ih _ _
  | pending next ih => exact ih _ _

end Work

namespace Machine

variable {σ α : Type}

/-! ### What stays true all along -/

/-- What every operation keeps and what does not depend on the queue. -/
structure Steady (P : Machine σ α → Prop) : Prop extends Work.Kept P where
  queue : ∀ (m : Machine σ α) queue staged overflow depth deepest, P m →
    P { m with queue, staged, overflow, depth, deepest }

/-- No operation takes a machine over its budget. -/
theorem steady_cost (limits : Limits) :
    Steady (fun m : Machine σ α => m.limits = limits ∧ m.cost ≤ m.limits.commands) where
  charge m units h := ⟨h.1, charge_within m units h.2⟩
  stage _ _ h := h
  discard _ _ h := h
  govern _ _ h := h
  change _ _ h := h
  queue _ _ _ _ _ _ h := h

/-! ### The loop -/

/-- The machine with only `rest` left in its queue. -/
def without (m : Machine σ α) (rest : List (Entry α)) : Machine σ α := { m with queue := .ofList rest }

theorem without_queue {m : Machine σ α} {q : List (Entry α)} (hq : m.queue.toList = q) :
    m.without q = m := by
  unfold without
  rw [← hq, Backlog.ofList_toList]

/-- The machine about to run `e`, with `rest` left. -/
def begin (m : Machine σ α) (e : Entry α) (rest : List (Entry α)) : Machine σ α :=
  m.enter e.frame (.ofList rest)

theorem toList_of_pending {m : Machine σ α} (h : m.pending = 0) :
    m.queue.toList = [] ∧ m.staged.toList = [] := by
  simp only [pending, m.queue.size_eq, m.staged.size_eq, Nat.add_eq_zero_iff,
    List.length_eq_zero_iff] at h
  exact h

/-- What a live entry does in its turn. -/
def turn (mean : α → Frame → Work σ α Unit) (m : Machine σ α) (e : Entry α)
    (rest : List (Entry α)) : History σ α :=
  (.begun e, m.begin e rest) :: (mean e.action e.frame).history (m.begin e rest)

theorem turns_turn (mean : α → Frame → Work σ α Unit) (m : Machine σ α) (e : Entry α)
    (rest : List (Entry α)) : (m.turn mean e rest).turns = 1 :=
  (List.countP_cons_of_pos rfl).trans (congrArg (· + 1) (Work.history_no_turns _ _).2)

theorem performed_turn (mean : α → Frame → Work σ α Unit) (m : Machine σ α) (e : Entry α)
    (rest : List (Entry α)) : (m.turn mean e rest).performed = [e] :=
  congrArg (List.cons e) (Work.history_no_turns _ _).1

theorem performed_turn_append (mean : α → Frame → Work σ α Unit) (m : Machine σ α) (e : Entry α)
    (rest : List (Entry α)) (h : History σ α) :
    (m.turn mean e rest ++ h).performed = e :: h.performed := by
  rw [History.performed_append, performed_turn]
  rfl

variable [Audience σ]

/-- What a run does with the fuel it is given. -/
def history (mean : α → Frame → Work σ α Unit) : Nat → Machine σ α → History σ α
  | 0, _ => []
  | fuel + 1, m =>
    match m.queue.toList with
    | [] => []
    | e :: rest =>
      if m.isLive e then
        m.turn mean e rest ++ match perform mean (m.begin e rest) e with
          | (some fault, m) => [(.aborted fault, m)]
          | (none, m) => m.history mean fuel
      else (.dropped e, m.without rest) :: (m.without rest).history mean fuel

variable {mean : α → Frame → Work σ α Unit} {m m' m₁ : Machine σ α} {e : Entry α}
  {rest : List (Entry α)} {fuel : Nat} {ending : Ending} {fault : Fault} {h : History σ α}

theorem drain_of_nil (hq : m.queue.toList = []) :
    drain mean fuel m = (.finished m.cost m.deepest, m) := by
  cases fuel <;> rw [drain, Backlog.pop?_of_nil hq]

theorem drain_of_dead (hq : m.queue.toList = e :: rest) (hl : m.isLive e = false) :
    drain mean (fuel + 1) m = drain mean fuel (m.without rest) := by
  rw [drain, Backlog.pop?_of_cons hq]
  simp only [hl, Bool.false_eq_true, if_false]
  rfl

theorem drain_of_live (hq : m.queue.toList = e :: rest) (hl : m.isLive e = true) :
    drain mean (fuel + 1) m =
      match perform mean (m.begin e rest) e with
      | (some fault, m) => (.aborted fault, m)
      | (none, m) => drain mean fuel m := by
  rw [drain, Backlog.pop?_of_cons hq]
  simp only [hl, if_true]
  rfl

theorem drain_zero (hq : m.queue.toList = e :: rest) : drain mean 0 m = (.unfinished, m) := by
  rw [drain, Backlog.pop?_of_cons hq]

theorem history_of_nil (hq : m.queue.toList = []) : m.history mean fuel = [] := by
  cases fuel with
  | zero => rfl
  | succ fuel => rw [history, hq]

theorem history_of_dead (hq : m.queue.toList = e :: rest) (hl : m.isLive e = false) :
    m.history mean (fuel + 1) =
      (.dropped e, m.without rest) :: (m.without rest).history mean fuel := by
  rw [history, hq]
  simp only [hl, Bool.false_eq_true, if_false]

theorem history_of_live (hq : m.queue.toList = e :: rest) (hl : m.isLive e = true) :
    m.history mean (fuel + 1) =
      m.turn mean e rest ++ match perform mean (m.begin e rest) e with
        | (some fault, m) => [(.aborted fault, m)]
        | (none, m) => m.history mean fuel := by
  rw [history, hq]
  simp only [hl, if_true]

/-- Work that aborts ends the run. -/
theorem perform_of_error (hx : (mean e.action e.frame).exec m = (.error fault, m₁)) :
    perform mean m e = (some fault, m₁.abort e.frame) := by
  rw [perform, hx]

/-- Work that ends well ends the run only if it queued too much. -/
theorem perform_of_ok (hx : (mean e.action e.frame).exec m = (.ok (), m₁)) :
    perform mean m e =
      if m₁.overflow then (some (.ofCeiling (.queueOverflow m₁.limits.queue)), m₁.abort e.frame)
      else (none, m₁.splice) := by
  rw [perform, hx]
  rfl

theorem perform_eq_none :
    perform mean m e = (none, m') ↔
      ∃ m₁, (mean e.action e.frame).exec m = (.ok (), m₁) ∧ m₁.overflow = false ∧ m' = m₁.splice := by
  constructor
  · intro h
    match hx : (mean e.action e.frame).exec m with
    | (.error fault, m₁) =>
      rw [perform_of_error hx] at h
      cases h
    | (.ok (), m₁) =>
      rw [perform_of_ok hx] at h
      cases ho : m₁.overflow with
      | true =>
        rw [ho, if_pos rfl] at h
        cases h
      | false =>
        rw [ho, if_neg Bool.false_ne_true] at h
        cases h
        exact ⟨m₁, rfl, ho, rfl⟩
  · rintro ⟨m₁, hx, ho, rfl⟩
    rw [perform_of_ok hx, ho, if_neg Bool.false_ne_true]

theorem limits_perform {result : Option Fault}
    (hp : perform mean (m.begin e rest) e = (result, m')) :
    m'.limits = m.limits := by
  have h := Work.limits_exec (mean e.action e.frame) (m.begin e rest)
  rw [show m' = (perform mean (m.begin e rest) e).2 by rw [hp]]
  match hx : (mean e.action e.frame).exec (m.begin e rest) with
  | (.error _, m₁) =>
    rw [perform_of_error hx]
    rw [hx] at h
    exact h
  | (.ok (), m₁) =>
    rw [perform_of_ok hx]
    rw [hx] at h
    split
    · exact h
    · exact h

/-- Between two turns nothing is staged. -/
theorem staged_perform {result : Option Fault}
    (hp : perform mean (m.begin e rest) e = (result, m')) :
    m'.staged = .empty := by
  rw [show m' = (perform mean (m.begin e rest) e).2 by rw [hp]]
  match hx : (mean e.action e.frame).exec (m.begin e rest) with
  | (.error _, m₁) =>
    rw [perform_of_error hx]
    rfl
  | (.ok (), m₁) =>
    rw [perform_of_ok hx]
    split
    · rfl
    · rfl

/-- A fault forgets what waits. -/
theorem perform_fault (hp : perform mean m e = (some fault, m')) :
    m'.pending = 0 ∧ m'.overflow = false := by
  match hx : (mean e.action e.frame).exec m with
  | (.error _, m₁) =>
    rw [perform_of_error hx] at hp
    cases hp
    exact ⟨rfl, rfl⟩
  | (.ok (), m₁) =>
    rw [perform_of_ok hx] at hp
    split at hp
    · cases hp
      exact ⟨rfl, rfl⟩
    · cases hp

/-! ### Steady facts of a run -/

theorem Steady.abort {P : Machine σ α → Prop} (hP : Steady P) {frame : Frame} (h : P m) :
    P (m.abort frame) :=
  hP.discard _ _ (hP.change _ _ (hP.queue m .empty .empty false m.depth m.deepest h))

theorem Steady.perform {P : Machine σ α → Prop} (hP : Steady P) (h : P m) :
    P (perform mean m e).2 := by
  have hx := Work.exec_keeps hP.toKept (mean e.action e.frame) m h
  match hm : (mean e.action e.frame).exec m with
  | (.error _, m₁) =>
    rw [hm] at hx
    rw [perform_of_error hm]
    exact hP.abort hx
  | (.ok (), m₁) =>
    rw [hm] at hx
    rw [perform_of_ok hm]
    split
    · exact hP.abort hx
    · exact hP.queue m₁ _ _ m₁.overflow m₁.depth m₁.deepest hx

/-- It then holds after every operation of a run, and at its end. -/
theorem Steady.history {P : Machine σ α → Prop} (hP : Steady P) (mean : α → Frame → Work σ α Unit)
    (fuel : Nat) (h : P m) :
    (∀ x ∈ m.history mean fuel, P x.2) ∧ P (drain mean fuel m).2 := by
  induction fuel generalizing m with
  | zero =>
    refine ⟨fun _ hx => absurd hx List.not_mem_nil, ?_⟩
    cases hq : m.queue.toList with
    | nil => rw [drain_of_nil hq]; exact h
    | cons e rest => rw [drain_zero hq]; exact h
  | succ fuel ih =>
    cases hq : m.queue.toList with
    | nil =>
      rw [history_of_nil hq, drain_of_nil hq]
      exact ⟨fun _ hx => absurd hx List.not_mem_nil, h⟩
    | cons e rest =>
      cases hl : m.isLive e with
      | false =>
        have hwithout : P (m.without rest) :=
          hP.queue m _ m.staged m.overflow m.depth m.deepest h
        rw [history_of_dead hq hl, drain_of_dead hq hl]
        obtain ⟨hall, hlast⟩ := ih hwithout
        exact ⟨List.forall_mem_cons.mpr ⟨hwithout, hall⟩, hlast⟩
      | true =>
        have hbegin : P (m.begin e rest) := hP.queue m _ m.staged m.overflow _ _ h
        have hturn : ∀ x ∈ m.turn mean e rest, P x.2 :=
          List.forall_mem_cons.mpr ⟨hbegin, Work.history_keeps hP.toKept _ _ hbegin⟩
        have hperform : P (Machine.perform mean (m.begin e rest) e).2 := hP.perform hbegin
        rw [history_of_live hq hl, drain_of_live hq hl]
        match hp : Machine.perform mean (m.begin e rest) e with
        | (some fault, m₁) =>
          rw [hp] at hperform
          refine ⟨fun x hx => ?_, hperform⟩
          rcases List.mem_append.mp hx with hx | hx
          · exact hturn x hx
          · rw [List.mem_singleton.mp hx]
            exact hperform
        | (none, m₁) =>
          rw [hp] at hperform
          obtain ⟨hall, hlast⟩ := ih hperform
          refine ⟨fun x hx => ?_, hlast⟩
          rcases List.mem_append.mp hx with hx | hx
          · exact hturn x hx
          · exact hall x hx

/-! ### A run as a derivation -/

/-- How the loop goes from a machine to the end of its run. -/
inductive Course (mean : α → Frame → Work σ α Unit) :
    Machine σ α → History σ α → Ending → Machine σ α → Prop where
  | finished {m : Machine σ α} (hq : m.queue.toList = []) :
    Course mean m [] (.finished m.cost m.deepest) m
  | dropped {m m' : Machine σ α} {e : Entry α} {rest : List (Entry α)} {h : History σ α}
      {ending : Ending} (hq : m.queue.toList = e :: rest) (hl : m.isLive e = false)
      (next : Course mean (m.without rest) h ending m') :
    Course mean m ((.dropped e, m.without rest) :: h) ending m'
  | performed {m m₁ m' : Machine σ α} {e : Entry α} {rest : List (Entry α)} {h : History σ α}
      {ending : Ending} (hq : m.queue.toList = e :: rest) (hl : m.isLive e = true)
      (hp : perform mean (m.begin e rest) e = (none, m₁)) (next : Course mean m₁ h ending m') :
    Course mean m (m.turn mean e rest ++ h) ending m'
  | failed {m m' : Machine σ α} {e : Entry α} {rest : List (Entry α)} {fault : Fault}
      (hq : m.queue.toList = e :: rest) (hl : m.isLive e = true)
      (hp : perform mean (m.begin e rest) e = (some fault, m')) :
    Course mean m (m.turn mean e rest ++ [(.aborted fault, m')]) (.aborted fault) m'

theorem course_of_drain (hd : drain mean fuel m = (ending, m')) (hne : ending ≠ .unfinished) :
    Course mean m (m.history mean fuel) ending m' := by
  induction fuel generalizing m with
  | zero =>
    cases hq : m.queue.toList with
    | nil =>
      rw [drain_of_nil hq] at hd
      cases hd
      exact .finished hq
    | cons e rest =>
      rw [drain_zero hq] at hd
      cases hd
      exact absurd rfl hne
  | succ fuel ih =>
    cases hq : m.queue.toList with
    | nil =>
      rw [drain_of_nil hq] at hd
      cases hd
      rw [history_of_nil hq]
      exact .finished hq
    | cons e rest =>
      cases hl : m.isLive e with
      | false =>
        rw [drain_of_dead hq hl] at hd
        rw [history_of_dead hq hl]
        exact .dropped hq hl (ih hd)
      | true =>
        rw [drain_of_live hq hl] at hd
        rw [history_of_live hq hl]
        cases hp : perform mean (m.begin e rest) e with
        | mk result m₁ =>
          rw [hp] at hd
          cases result with
          | none => exact .performed hq hl hp (ih hd)
          | some fault =>
            cases hd
            exact .failed hq hl hp

theorem Course.ending_ne (c : Course mean m h ending m') : ending ≠ .unfinished := by
  induction c with
  | finished hq => exact fun h => nomatch h
  | dropped hq hl next ih => exact ih
  | performed hq hl hp next ih => exact ih
  | failed hq hl hp => exact fun h => nomatch h

/-- A run that finished leaves nothing to be run. -/
theorem Course.queue_eq {cost deepest : Nat} (c : Course mean m h (.finished cost deepest) m') :
    m'.queue.toList = [] := by
  generalize he : Ending.finished cost deepest = ending at c
  induction c with
  | finished hq => exact hq
  | dropped hq hl next ih => exact ih he
  | performed hq hl hp next ih => exact ih he
  | failed hq hl hp => cases he

theorem Course.cost_eq {cost deepest : Nat} (c : Course mean m h (.finished cost deepest) m') :
    m'.cost = cost := by
  generalize he : Ending.finished cost deepest = ending at c
  induction c with
  | finished hq => exact (Ending.finished.inj he).1.symm
  | dropped hq hl next ih => exact ih he
  | performed hq hl hp next ih => exact ih he
  | failed hq hl hp => cases he

/-- Any fuel from some amount on takes the loop through a course. -/
theorem drain_of_course (c : Course mean m h ending m') :
    ∃ least, ∀ fuel, least ≤ fuel →
      drain mean fuel m = (ending, m') ∧ m.history mean fuel = h := by
  induction c with
  | finished hq => exact ⟨0, fun _ _ => ⟨drain_of_nil hq, history_of_nil hq⟩⟩
  | dropped hq hl next ih =>
    obtain ⟨least, ih⟩ := ih
    refine ⟨least + 1, fun fuel hf => ?_⟩
    obtain ⟨fuel, rfl⟩ := Nat.exists_eq_add_of_le hf
    obtain ⟨hd, hh⟩ := ih (least + fuel) (by omega)
    rw [show least + 1 + fuel = least + fuel + 1 by omega, drain_of_dead hq hl,
      history_of_dead hq hl, hd, hh]
    exact ⟨rfl, rfl⟩
  | performed hq hl hp next ih =>
    obtain ⟨least, ih⟩ := ih
    refine ⟨least + 1, fun fuel hf => ?_⟩
    obtain ⟨fuel, rfl⟩ := Nat.exists_eq_add_of_le hf
    obtain ⟨hd, hh⟩ := ih (least + fuel) (by omega)
    rw [show least + 1 + fuel = least + fuel + 1 by omega, drain_of_live hq hl,
      history_of_live hq hl, hp]
    exact ⟨hd, congrArg _ hh⟩
  | failed hq hl hp =>
    refine ⟨1, fun fuel hf => ?_⟩
    obtain ⟨fuel, rfl⟩ := Nat.exists_eq_add_of_le hf
    rw [show 1 + fuel = fuel + 1 by omega, drain_of_live hq hl, history_of_live hq hl, hp]
    exact ⟨rfl, rfl⟩

/-- A run that comes to its end, with what it did. -/
def Runs (mean : α → Frame → Work σ α Unit) (m : Machine σ α) (h : History σ α) (ending : Ending)
    (m' : Machine σ α) : Prop :=
  ending ≠ .unfinished ∧
    ∃ fuel, m.run mean fuel = (ending, m') ∧ m.splice.history mean fuel = h

theorem runs_iff_course : m.Runs mean h ending m' ↔ Course mean m.splice h ending m' := by
  constructor
  · rintro ⟨hne, fuel, hd, rfl⟩
    exact course_of_drain hd hne
  · intro c
    obtain ⟨least, hc⟩ := drain_of_course c
    exact ⟨c.ending_ne, least, hc least (Nat.le_refl _)⟩

/-- A machine runs in one way only. -/
theorem Runs.unique {h' : History σ α} {ending' : Ending} {m'' : Machine σ α}
    (r : m.Runs mean h ending m') (r' : m.Runs mean h' ending' m'') :
    h = h' ∧ ending = ending' ∧ m' = m'' := by
  obtain ⟨least, hc⟩ := drain_of_course (runs_iff_course.mp r)
  obtain ⟨least', hc'⟩ := drain_of_course (runs_iff_course.mp r')
  obtain ⟨hd, hh⟩ := hc (max least least') (Nat.le_max_left ..)
  obtain ⟨hd', hh'⟩ := hc' (max least least') (Nat.le_max_right ..)
  have hends := hd.symm.trans hd'
  exact ⟨hh.symm.trans hh', congrArg Prod.fst hends, congrArg Prod.snd hends⟩

end Machine

end Trampoline
