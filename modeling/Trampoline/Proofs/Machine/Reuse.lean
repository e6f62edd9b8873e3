import Trampoline.Journal
import Trampoline.Submission
import Trampoline.Proofs.Machine.Sequence

/-! A machine that is used again and again.

Between its runs a machine is given entries, and governors are made and discarded. Every push
compares what waits with the queue limit, and the flag it raises is looked at when a live entry has
been performed. So a run that only drops dead entries never comes to look, and leaves the flag up
for the next: `Used mean peak m` remembers, beside the machine, the most entries that ever waited
since it was made or since a run last performed an entry. The flag tells exactly whether that passed
the limit (`overflow_of_used`), so a run ends over its queue only if that peak or its own did, and
not if it has nothing to perform (`run_of_used`). However it ends, nothing waits behind it. -/
namespace Trampoline

namespace Machine

variable {σ α : Type} {mean : α → Frame → Work σ α Unit} {m m' m₁ : Machine σ α} {e : Entry α}
  {rest : List (Entry α)} {h : History σ α} {ending : Ending} {fault : Fault} {peak : Nat}

theorem peak_turn_append (m : Machine σ α) (e : Entry α) (rest : List (Entry α)) (h : History σ α) :
    (m.turn mean e rest ++ h).peak =
      max ((mean e.action e.frame).history (m.begin e rest)).peak h.peak :=
  History.peak_append (m.turn mean e rest) h

variable [Audience σ]

/-! ### What a run leaves behind -/

/-- Nothing waits behind a run. -/
theorem Course.pending_eq (c : Course mean m h ending m') (hs : m.staged = .empty) :
    m'.pending = 0 := by
  induction c with
  | finished hq =>
    rw [pending, Backlog.eq_empty hq, hs]
    rfl
  | dropped hq hl next ih => exact ih hs
  | performed hq hl hp next ih => exact ih (staged_perform hp)
  | failed hq hl hp => exact (perform_fault hp).1

/-- An entry that is performed and does not end the run found the flag down, and left it so. -/
theorem flag_of_perform (hp : perform mean (m.begin e rest) e = (none, m₁)) :
    m.overflow = false ∧ ((mean e.action e.frame).history (m.begin e rest)).peak ≤ m.limits.queue ∧
      m₁.overflow = false := by
  obtain ⟨m₂, hx, ho, rfl⟩ := perform_eq_none.mp hp
  have hflag := Work.overflow_exec (mean e.action e.frame) (m.begin e rest)
  rw [hx, show (m₂ : Machine σ α).overflow = false from ho, eq_comm, Bool.or_eq_false_iff,
    decide_eq_false_iff_not] at hflag
  exact ⟨hflag.1, Nat.le_of_not_lt hflag.2, ho⟩

/-- Only a run that performs nothing leaves the flag as it was. -/
theorem Course.overflow_eq (c : Course mean m h ending m') :
    m'.overflow = (m.overflow && h.performed.isEmpty) := by
  induction c with
  | finished hq => exact (Bool.and_true _).symm
  | dropped hq hl next ih => exact ih
  | performed hq hl hp next ih =>
    rw [ih, (flag_of_perform hp).2.2, performed_turn_append]
    exact (Bool.and_false _).symm
  | failed hq hl hp =>
    rw [(perform_fault hp).2, performed_turn_append]
    exact (Bool.and_false _).symm

/-! ### Why a run ends over its queue -/

/-- No work reports by itself that the queue is over its limit. -/
def Honest (mean : α → Frame → Work σ α Unit) : Prop :=
  ∀ a frame m limit, ((mean a frame).exec m).1 ≠ .error (.ofCeiling (.queueOverflow limit))

theorem flag_of_overflow (hmean : Honest mean) {limit : Nat}
    (hp : perform mean (m.begin e rest) e = (some (.ofCeiling (.queueOverflow limit)), m')) :
    m.overflow = true ∨
      m.limits.queue < ((mean e.action e.frame).history (m.begin e rest)).peak := by
  have hflag := Work.overflow_exec (mean e.action e.frame) (m.begin e rest)
  match hx : (mean e.action e.frame).exec (m.begin e rest) with
  | (.error fault, m₁) =>
    rw [perform_of_error hx] at hp
    cases hp
    exact absurd (congrArg Prod.fst hx) (hmean _ _ _ _)
  | (.ok (), m₁) =>
    rw [perform_of_ok hx] at hp
    cases ho : m₁.overflow with
    | false =>
      rw [ho, if_neg Bool.false_ne_true] at hp
      cases hp
    | true =>
      rw [hx, show (m₁ : Machine σ α).overflow = true from ho, eq_comm, Bool.or_eq_true,
        decide_eq_true_eq] at hflag
      exact hflag

/-- A run that ends over its queue came to an entry, and the flag was up or the run raised it. -/
theorem Course.flag_of_overflow (hmean : Honest mean) (c : Course mean m h ending m') {limit : Nat}
    (hover : ending = .aborted (.ofCeiling (.queueOverflow limit))) :
    h.performed ≠ [] ∧ (m.overflow = true ∨ m.limits.queue < h.peak) := by
  induction c with
  | finished hq => cases hover
  | dropped hq hl next ih => exact ih hover
  | performed hq hl hp next ih =>
    rw [performed_turn_append, peak_turn_append]
    refine ⟨List.cons_ne_nil _ _, .inr ?_⟩
    have hpeak := (ih hover).2
    rw [(flag_of_perform hp).2.2, limits_perform hp] at hpeak
    exact Nat.lt_of_lt_of_le (hpeak.resolve_left Bool.false_ne_true) (Nat.le_max_right ..)
  | failed hq hl hp =>
    cases hover
    rw [performed_turn_append, peak_turn_append]
    refine ⟨List.cons_ne_nil _ _, (Machine.flag_of_overflow hmean hp).imp_right fun hpeak => ?_⟩
    exact Nat.lt_of_lt_of_le hpeak (Nat.le_max_left ..)

/-- A run that finishes kept to the limit, and came to no entry if the flag was up. -/
theorem Course.flag_of_finished (c : Course mean m h ending m') {cost deepest : Nat}
    (hends : ending = .finished cost deepest) :
    h.peak ≤ m.limits.queue ∧ (m.overflow = true → h.performed = []) := by
  induction c with
  | finished hq => exact ⟨Nat.zero_le _, fun _ => rfl⟩
  | dropped hq hl next ih => exact ih hends
  | performed hq hl hp next ih =>
    obtain ⟨hflag, hpeak, -⟩ := flag_of_perform hp
    have hrest := (ih hends).1
    rw [limits_perform hp] at hrest
    rw [peak_turn_append, hflag]
    exact ⟨Nat.max_le.mpr ⟨hpeak, hrest⟩, fun hup => nomatch hup⟩
  | failed hq hl hp => cases hends

/-! ### From the making of a machine on -/

/-- What can be done with a machine from outside, any number of times: entries are queued, whatever
generation they are stamped with, governors are made and discarded, the world changes, and the
machine is run. `peak` is the most that waited right after an entry was queued, from the making of
the machine or the last run that performed an entry. -/
inductive Used (mean : α → Frame → Work σ α Unit) : Nat → Machine σ α → Prop where
  | fresh (limits : Limits) (world : σ) : Used mean 0 { limits, world }
  | queued {peak : Nat} {m : Machine σ α} (hu : Used mean peak m) (e : Entry α) :
    Used mean (max peak (m.stage e).pending) (m.stage e)
  | governed {peak : Nat} {m : Machine σ α} (hu : Used mean peak m) (depth : Nat) :
    Used mean peak (m.govern depth).2
  | governorAt {peak : Nat} {m : Machine σ α} (hu : Used mean peak m) (depth : Nat) :
    Used mean peak (m.governorAt depth).2
  | discarded {peak : Nat} {m : Machine σ α} (hu : Used mean peak m) (g : GovernorId) :
    Used mean peak (m.discard g)
  | changed {peak : Nat} {m : Machine σ α} (hu : Used mean peak m) (change : σ → σ) :
    Used mean peak { m with world := change m.world }
  | ran {peak : Nat} {m m' : Machine σ α} {h : History σ α} {ending : Ending}
      (hu : Used mean peak m) (hr : m.Runs mean h ending m') :
    Used mean (if h.performed.isEmpty then peak else 0) m'

/-- A command or a call that is queued in a frame at depth zero. -/
theorem Used.submit (hu : Used mean peak m) (callback : Callback) (action : α) :
    Used mean (max peak (m.submit callback action).pending) (m.submit callback action) :=
  (hu.governorAt 0).queued _

/-- A call in a frame that nothing else belongs to. -/
theorem Used.submitApart (hu : Used mean peak m) (action : α) :
    Used mean (max peak (m.submitApart action).pending) (m.submitApart action) :=
  (hu.governed m.depth).queued _

/-- The flag tells whether the peak passed the limit. -/
theorem overflow_of_used (hu : Used mean peak m) : m.overflow = decide (m.limits.queue < peak) := by
  induction hu with
  | fresh limits world => rfl
  | @queued peak m hu e ih =>
    have hflag : (m.stage e).overflow = (m.overflow || decide (m.limits.queue < (m.stage e).pending)) :=
      rfl
    rw [hflag, ih, ← Bool.decide_or]
    exact decide_eq_decide.mpr (by rw [show (m.stage e).limits = m.limits from rfl]; omega)
  | governed hu depth ih => exact ih
  | @governorAt peak m hu depth ih =>
    unfold Machine.governorAt
    split
    · exact ih
    · exact ih
  | discarded hu g ih => exact ih
  | changed hu change ih => exact ih
  | @ran peak m m' h ending hu hr ih =>
    have c := runs_iff_course.mp hr
    rw [c.overflow_eq, c.limits_eq, show m.splice.overflow = m.overflow from rfl, ih]
    cases h.performed.isEmpty with
    | true => exact Bool.and_true _
    | false => exact Bool.and_false _

/-- **When a run is over its queue.** Whatever was done with a machine, nothing waits behind its next
run. That run reports an overflow only if it performs an entry, and more entries waited than may, in
the run itself or since a run last performed one; it finishes only if its own entries fit, and with
more than may before it only if it performs none. -/
theorem run_of_used (hmean : Honest mean) (hu : Used mean peak m) (hr : m.Runs mean h ending m') :
    m'.pending = 0 ∧
      (∀ limit, ending = .aborted (.ofCeiling (.queueOverflow limit)) →
        h.performed ≠ [] ∧ m.limits.queue < max peak h.peak) ∧
      ∀ cost deepest, ending = .finished cost deepest →
        h.peak ≤ m.limits.queue ∧ (m.limits.queue < peak → h.performed = []) := by
  have c := runs_iff_course.mp hr
  have hflag : m.splice.overflow = decide (m.limits.queue < peak) :=
    (show m.splice.overflow = m.overflow from rfl).trans (overflow_of_used hu)
  refine ⟨c.pending_eq rfl, fun limit hover => ?_, fun cost deepest hends => ?_⟩
  · obtain ⟨hperformed, hpeak⟩ := c.flag_of_overflow hmean hover
    rw [hflag, decide_eq_true_eq, show m.splice.limits = m.limits from rfl] at hpeak
    exact ⟨hperformed, by omega⟩
  · have hfits := c.flag_of_finished hends
    rw [hflag, decide_eq_true_eq] at hfits
    exact hfits

/-- Two entries are one too many; both are dead when the machine is run, so the run finishes, and the
next one, of one entry, is refused for them. -/
example :
    let m : Machine (Scene Unit) Unit := { limits := { queue := 1 }, world := ⟨{}, ()⟩ }
    let mean : Unit → Frame → Work (Scene Unit) Unit Unit := fun _ _ => .done ()
    let first := (((m.submit .empty ()).submit .empty ()).discard 0).run mean 2
    first.1 = .finished 0 0 ∧ first.2.pending = 0 ∧ (first.2.submit .empty ()).pending = 1 ∧
      ((first.2.submit .empty ()).run mean 1).1 = .aborted (.ofCeiling (.queueOverflow 1)) := by
  decide

end Machine

end Trampoline
