import Trampoline.Script
import Trampoline.Proofs.Machine.Eager

/-! Discarding late is discarding at once.

The machine drops dead entries when their turn comes, the reference takes them out when they
are discarded; whatever work is done, the two perform the same entries (`run_mirrors`). Three
things could tell them apart: who asks how many entries wait and a queue that gets too long
count the dead ones, which is what it costs to leave them where they are; an entry that is
kept back through a discard and only then queued is dead in the machine, and the reference
knows nothing of it (`recount_and_belated_told_apart`); and an entry that waits through 2³²
discards is alive again (`taken_spun`). -/
namespace Trampoline

variable {σ α β : Type}

/-! ### Many discards -/

namespace Work

/-- Discards the work of one governor several times. -/
def spin (g : GovernorId) : Nat → Work σ α Unit
  | 0 => .done ()
  | k + 1 => .discard g fun _ => spin g k

theorem blind_spin (g : GovernorId) (k : Nat) : (spin g k : Work σ α Unit).Blind := by
  induction k with
  | zero => trivial
  | succ k ih => exact ih

theorem exec_spin (g : GovernorId) (k : Nat) (m : Machine σ α) :
    (spin g k).exec m = (.ok (), m.discardTimes g k) := by
  induction k generalizing m with
  | zero => rfl
  | succ k ih => exact ih (m.discard g)

theorem peak_spin (g : GovernorId) (k : Nat) (m : Machine σ α) : ((spin g k).history m).peak = 0 := by
  induction k generalizing m with
  | zero => rfl
  | succ k ih => exact ih (m.discard g)

theorem timely_spin (g : GovernorId) (k : Nat) (m : Machine σ α) :
    ((spin g k).history m).timely = true := by
  induction k generalizing m with
  | zero => rfl
  | succ k ih => exact ih (m.discard g)

/-- Each of them is counted. -/
theorem after_spin {e : Entry α} (k n : Nat) {m : Machine σ α}
    (hg : e.frame.governor < m.governors.size) :
    (⟨[(e, n)], []⟩ : Ledger α).after ((spin e.frame.governor k).history m) =
      ⟨[(e, n + k)], []⟩ := by
  induction k generalizing m n with
  | zero => rfl
  | succ k ih =>
    have hsize : e.frame.governor < (m.discard e.frame.governor).governors.size := by
      rw [Machine.discard, Array.size_modify]
      exact hg
    have hstep : (⟨[(e, n)], []⟩ : Ledger α).step
        (.discarded e.frame.governor, m.discard e.frame.governor) = ⟨[(e, n + 1)], []⟩ := by
      rw [Ledger.step, if_pos hsize]
      simp only [Ledger.discard, List.map_cons, List.map_nil, Ledger.count, if_true]
    change ((⟨[(e, n)], []⟩ : Ledger α).step
      (.discarded e.frame.governor, m.discard e.frame.governor)).after _ = _
    rw [hstep, ih (n + 1) hsize, Nat.add_assoc, Nat.add_comm 1 k]

end Work

namespace Machine

variable [Audience σ] {mean : α → Frame → Work σ α Unit} {m : Machine σ α}

theorem perform_spin {e : Entry α} {g : GovernorId} {k : Nat}
    (he : mean e.action e.frame = Work.spin g k) (ho : m.overflow = false) :
    perform mean m e = (none, (m.discardTimes g k).splice) := by
  refine perform_eq_none.mpr ⟨_, ?_, ?_, rfl⟩
  · rw [he, Work.exec_spin]
  · rw [discardTimes_eq]
    exact ho

omit [Audience σ] in
/-- Of two entries that are made and queued, one after the other, neither was discarded yet. -/
theorem after_queue_queue (m : Machine σ α) (frame frame' : Frame) (a b : α) :
    (Ledger.after {} ((.queue frame a fun _ => .queue frame' b .done : Work σ α Unit).history
      m)).splice = ⟨[(m.entry frame a, 0), (m.entry frame' b, 0)], []⟩ := by
  have hfirst : (m.stage (m.entry frame a)).behind (m.entry frame a) = 0 :=
    behind_of_live (m.isLive_entry frame a)
  have hsecond : ((m.stage (m.entry frame a)).stage (m.entry frame' b)).behind
      (m.entry frame' b) = 0 := behind_of_live (m.isLive_entry frame' b)
  change (⟨[(m.entry frame a, (m.stage (m.entry frame a)).behind (m.entry frame a)),
    (m.entry frame' b, ((m.stage (m.entry frame a)).stage (m.entry frame' b)).behind
      (m.entry frame' b))], []⟩ : Ledger α) = _
  rw [hfirst, hsecond]

/-- The turn of an entry that discards the one behind it, many times. -/
theorem turn_spun {t : Ledger α} {e e' : Entry α} {k : Nat} (ht : t.splice.Tracks m)
    (hwaiting : t.splice = ⟨[(e, 0), (e', 0)], []⟩) (hg : e'.frame.governor < m.governors.size)
    (ho : m.overflow = false) (he : mean e.action e.frame = Work.spin e'.frame.governor k) :
    t.tail.after ((mean e.action e.frame).history (m.begin e [e'])) = ⟨[(e', k)], []⟩ ∧
      ∃ m₁, perform mean (m.begin e [e']) e = (none, m₁) ∧
        (⟨[(e', k)], []⟩ : Ledger α).splice.Tracks m₁ := by
  have hq : m.queue.toList = [e, e'] := by rw [← ht.queue, hwaiting]; rfl
  have htail : t.tail = ⟨[(e', 0)], []⟩ := by rw [Ledger.tail, hwaiting]; rfl
  have hafter : t.tail.after ((mean e.action e.frame).history (m.begin e [e'])) =
      ⟨[(e', k)], []⟩ := by
    rw [he, htail, Work.after_spin k 0 (m := m.begin e [e']) hg, Nat.zero_add]
  obtain ⟨m₁, hp⟩ : ∃ m₁, perform mean (m.begin e [e']) e = (none, m₁) :=
    ⟨_, perform_spin he ho⟩
  have ht₁ := ht.turn hq hp
  rw [hafter] at ht₁
  exact ⟨hafter, m₁, hp, ht₁⟩

/-- An entry that waits behind many discards of its governor is performed if there are a multiple of
2³² of them; the reference has lost it with the first. -/
theorem taken_spun (hidle : m.pending = 0) (ho : m.overflow = false) (hfit : 2 ≤ m.limits.queue)
    {frame frame' : Frame} (hshared : frame'.governor = frame.governor)
    (hg : frame.governor < m.governors.size) {a b : α} {k : Nat} (hk : 0 < k)
    (ha : mean a frame = Work.spin frame.governor k) :
    let w : Work σ α Unit := .queue frame a fun _ => .queue frame' b .done
    let stamp := m.generation frame.governor
    m.taken mean w 2 =
        [⟨⟨frame, stamp, a⟩, 0, true⟩, ⟨⟨frame', stamp, b⟩, k, decide (UInt32.size ∣ k)⟩] ∧
      ∀ fuel, begunEager mean (fuel + 1) (w.execEager m).2.splice =
        [(⟨frame, stamp, a⟩, m.world)] := by
  intro w stamp
  obtain ⟨depth', returns', g'⟩ := frame'
  subst hshared
  let e : Entry α := ⟨frame, stamp, a⟩
  let e' : Entry α := ⟨⟨depth', returns', frame.governor⟩, stamp, b⟩
  let t : Ledger α := Ledger.after {} (w.history m)
  let m₁ := (w.exec m).2.splice
  have hwaiting : t.splice = ⟨[(e, 0), (e', 0)], []⟩ := after_queue_queue m frame _ a b
  have hnext : t.next = 0 := by rw [Ledger.next, hwaiting]; rfl
  have ht : t.splice.Tracks m₁ := (Ledger.tracks_exec w (Ledger.tracks_idle hidle)).splice
  have hq : m₁.queue.toList = [e, e'] := by rw [← ht.queue, hwaiting]; rfl
  have hl : m₁.isLive e = true := m.isLive_entry frame a
  have hpeak : (w.history m).peak ≤ m.limits.queue := by
    have hpeak : (w.history m).peak = max (m.pending + 1) (max (m.pending + 1 + 1) 0) := rfl
    rw [hpeak, hidle]
    omega
  have ho₁ : m₁.overflow = false := by
    have h := Work.overflow_exec w m
    rw [ho, decide_eq_false (Nat.not_lt.mpr hpeak)] at h
    exact h
  have he : mean e.action e.frame = Work.spin e'.frame.governor k := ha
  obtain ⟨hafter, m₂, hp, ht₂⟩ := turn_spun ht hwaiting hg ho₁ he
  have hq₂ : m₂.queue.toList = [e'] := ht₂.queue.symm
  have hlive : m₂.isLive e' = true ↔ UInt32.size ∣ k := ht₂.isLive_iff hq₂
  constructor
  · rw [taken_eq, history_of_live hq hl, Ledger.taken_turn, hp, hafter]
    have hlast := Ledger.taken_one ⟨[(e', k)], []⟩ mean hq₂
    rw [Bool.eq_iff_iff.mpr (hlive.trans decide_eq_true_iff.symm)] at hlast
    change (⟨e, t.next, true⟩ : Taken α) :: _ = _
    rw [hnext]
    exact congrArg (List.cons _) hlast
  · intro fuel
    have hperform := performEager_purged (he ▸ Work.blind_spin _ _) (ht.begin hq)
      (by rw [he, Work.peak_spin]; exact Nat.zero_le _) (by rw [he]; exact Work.timely_spin _ _ _)
    obtain ⟨rest', hq', hbegin⟩ := purged_of_live ht hq hl (by rw [hnext]; decide)
    have hnone : (m₂.purged (⟨[(e', k)], []⟩ : Ledger α).splice).queue.toList = [] :=
      Ledger.fresh_cons_of_ne (Nat.pos_iff_ne_zero.mp hk) []
    have htimely : (w.history m).timely = true := by
      change (m.isLive (m.entry frame a) && (m.isLive (m.entry _ b) && true)) = true
      rw [isLive_entry, isLive_entry]
      rfl
    have hblind : w.Blind := fun _ _ => trivial
    rw [(splice_execEager hblind hidle hpeak htimely).2, begunEager_of_cons hq', hbegin, hperform,
      hp, hafter]
    exact congrArg (List.cons _) (begunEager_of_nil hnone)

/-! ### A whole run -/

/-- Whatever work queues on an idle machine, and whatever frames share governors: the machine and
the reference perform the same entries in the same worlds and come to the same end. Only who asks
how many entries wait could tell, and a queue that gets too long; and no entry may be dead already
when it is queued, or wait through 2³² discards of its governor. For an entry that is taken off the
queue is performed exactly if its governor was discarded a multiple of 2³² times since the entry was
made, at whatever moment of the run that was and whenever it was queued, and there are such entries
on every machine with a governor. -/
theorem run_mirrors (mean : α → Frame → Work σ α Unit) (m : Machine σ α) (hidle : m.pending = 0)
    (w : Work σ α Unit) :
    ((∀ a frame, (mean a frame).Blind) → w.Blind → (w.history m).peak ≤ m.limits.queue →
      (w.exec m).2.splice.Roomy mean →
      (w.history m).timely = true → (w.exec m).2.splice.Timely mean →
      (∀ fuel, ∀ x ∈ m.taken mean w fuel, x.discards < UInt32.size) →
      (w.execEager m).1 = (w.exec m).1 ∧
      (∀ fuel, ∃ fuel' ≤ fuel,
        Mirrors mean (w.exec m).2.splice (w.execEager m).2.splice fuel fuel') ∧
      ∀ fuel', ∃ fuel, Mirrors mean (w.exec m).2.splice (w.execEager m).2.splice fuel fuel' ∧
        (drain mean fuel (w.exec m).2.splice).1 =
          (drainEager mean fuel' (w.execEager m).2.splice).1) ∧
    (∀ fuel early late x after,
      w.history m ++ (w.exec m).2.splice.history mean fuel = early ++ late ++ x :: after →
      ∀ e performed, x.1.taken? = some (e, performed) →
        e.frame.governor < (History.now m early).governors.size →
        e.stamp = (History.now m early).generation e.frame.governor →
        (performed = true ↔ UInt32.size ∣ late.discards e.frame.governor)) ∧
    ∀ (frame frame' : Frame) (a b : α) (k : Nat), m.overflow = false → 2 ≤ m.limits.queue →
      frame'.governor = frame.governor → frame.governor < m.governors.size → 0 < k →
      mean a frame = Work.spin frame.governor k →
      let both : Work σ α Unit := .queue frame a fun _ => .queue frame' b .done
      let stamp := m.generation frame.governor
      m.taken mean both 2 =
          [⟨⟨frame, stamp, a⟩, 0, true⟩, ⟨⟨frame', stamp, b⟩, k, decide (UInt32.size ∣ k)⟩] ∧
        ∀ fuel, begunEager mean (fuel + 1) (both.execEager m).2.splice =
          [(⟨frame, stamp, a⟩, m.world)] := by
  have ht := (Ledger.tracks_exec w (Ledger.tracks_idle hidle)).splice
  refine ⟨fun hb hw hfit hr hlive htimely hfew => ?_, fun fuel early late x after hh => ?_, ?_⟩
  · obtain ⟨hresult, hsplice⟩ := splice_execEager hw hidle hfit hlive
    simp only [taken_eq] at hfew
    rw [hsplice]
    exact ⟨hresult, fun fuel => mirrors_of_machine hb hr htimely ht (hfew fuel),
      fun fuel' => mirrors_of_reference fuel' hb hr htimely ht hfew⟩
  · have hunbroken := Work.unbroken_history w m (h := (w.exec m).2.splice.history mean fuel)
      ((unbroken_history mean fuel _).of_governors rfl)
    rw [hh] at hunbroken
    exact fun e performed hx hg hstamp => hunbroken.performed_iff hx hg hstamp
  · intro frame frame' a b k ho hfit hshared hg hk ha
    exact taken_spun hidle ho hfit hshared hg hk ha

/-- Small actions: one discards its frame and goes on, one discards it too often. -/
def prune : Nat → Frame → Work (Scene Unit) Nat Unit
  | 0, frame => .discard frame.governor fun _ => Work.enqueue frame 3
  | 1, frame => Work.spin frame.governor UInt32.size
  | _, _ => Work.pay 1

def pruneMachine : Machine (Scene Unit) Nat :=
  { limits := {}, world := ⟨{}, ()⟩, governors := #[⟨0, 0⟩, ⟨0, 0⟩] }

/-- Three frames; the first two share a governor, and the entry of the third is made first and queued
last. -/
def pruned : Work (Scene Unit) Nat Unit := do
  let other ← Work.entry ⟨0, .one "other", 1⟩ 5
  Work.enqueue ⟨0, .one "caller", 0⟩ 0
  Work.enqueue ⟨1, .one "shared", 0⟩ 4
  .stage other .done

theorem prune_run_mirrors :
    (pruneMachine.pending = 0 ∧ (∀ a frame, (prune a frame).Blind) ∧ pruned.Blind ∧
      (pruned.history pruneMachine).peak ≤ pruneMachine.limits.queue ∧
      (pruned.exec pruneMachine).2.splice.Roomy prune ∧
      (pruned.history pruneMachine).timely = true ∧
      (pruned.exec pruneMachine).2.splice.Timely prune ∧
      (∀ fuel, ∀ x ∈ pruneMachine.taken prune pruned fuel, x.discards < UInt32.size) ∧
      ∃ fuel' ≤ 4, drainEager prune fuel' (pruned.execEager pruneMachine).2.splice =
        drain prune 4 (pruned.exec pruneMachine).2.splice) ∧
    ∃ x ∈ pruneMachine.taken prune
        (.queue ⟨0, .one "caller", 0⟩ 1 fun _ => .queue ⟨1, .one "shared", 0⟩ 4 .done) 2,
      x.entry.action = 4 ∧ x.discards = UInt32.size ∧ x.performed = true := by
  have hb : ∀ a frame, (prune a frame).Blind := by
    intro a frame
    unfold prune
    generalize UInt32.size = k
    split
    · exact Work.blind_enqueue frame 3
    · exact Work.blind_spin frame.governor k
    · exact fun result => by cases result <;> trivial
  have hpruned : pruned.Blind := fun _ _ _ => trivial
  have hends : drain prune 4 (pruned.exec pruneMachine).2.splice =
      (.finished 2 0, ((pruned.exec pruneMachine).2.run prune 4).2) := rfl
  have hcourse := course_of_drain hends (by decide)
  have hfew (fuel : Nat) : ∀ x ∈ pruneMachine.taken prune pruned fuel, x.discards < UInt32.size := by
    intro x hx
    rw [taken_eq] at hx
    have hdiscards : ((Ledger.after {} (pruned.history pruneMachine)).taken
        ((pruned.exec pruneMachine).2.splice.history prune 4)).map Taken.discards = [0, 0, 1, 0] := rfl
    have hmem := List.mem_map_of_mem (f := Taken.discards)
      (Ledger.mem_taken_of_course hcourse fuel x hx)
    rw [hdiscards] at hmem
    have hone : x.discards ≤ 1 := by
      simp only [List.mem_cons, List.not_mem_nil, or_false] at hmem
      omega
    exact Nat.lt_of_le_of_lt hone (by decide)
  have hroom := hcourse.roomy (by decide)
  have htimely := hcourse.timely (by decide)
  obtain ⟨hmirrors, -, hspun⟩ := run_mirrors prune pruneMachine rfl pruned
  refine ⟨⟨rfl, hb, hpruned, by decide, hroom, by decide, htimely, hfew, ?_⟩, ?_⟩
  · obtain ⟨-, hmachine, -⟩ := hmirrors hb hpruned (by decide) hroom (by decide) htimely hfew
    obtain ⟨fuel', hle, h⟩ := hmachine 4
    exact ⟨fuel', hle, h.drain (by rw [hends]; exact fun h => nomatch h)⟩
  · obtain ⟨htaken, -⟩ := hspun ⟨0, .one "caller", 0⟩ ⟨1, .one "shared", 0⟩ 1 4 UInt32.size rfl
      (by decide) rfl (by decide) (by decide) (by rw [prune])
    rw [htaken]
    exact ⟨_, List.mem_cons_of_mem _ List.mem_cons_self, rfl, rfl, by decide⟩

/-! ### What tells the two apart -/

/-- A script that discards what it queued, notes how many entries wait, and queues one more. -/
def recount : Work (Scene Host) (Task Script.Act) Unit :=
  Work.enqueue ⟨0, .one "root", 0⟩ (.act (.script
    [.queue [.log "a"], .discard, .log "now", .queue [.log "b"]]))

/-- There is room for one entry. -/
def narrowMachine : Machine (Scene Host) (Task Script.Act) :=
  { limits := { queue := 1 }, world := ⟨{}, {}⟩, governors := #[⟨0, 0⟩] }

def belatedFrame : Frame := ⟨0, .one "caller", 0⟩

/-- An entry is made, its frame discarded, and the entry queued only then. -/
def belated : Work (Scene Unit) Nat Unit := do
  let entry ← Work.entry belatedFrame 5
  Work.drop belatedFrame.governor
  .stage entry .done

/-- The dead entry of the first still takes the only place there is. The entry of the second is
discarded once; the machine drops it, and the reference runs it. -/
theorem recount_and_belated_told_apart :
    let meaning := Task.meaning .plain Script.meaning
    let run := (recount.exec narrowMachine).2.run meaning 3
    let reference := drainEager meaning 3 (recount.execEager narrowMachine).2.splice
    ((∀ fuel, ∀ x ∈ narrowMachine.taken meaning recount fuel, x.discards = 0) ∧
      run.1 = .aborted (.ofCeiling (.queueOverflow 1)) ∧ reference.1 = .finished 0 0 ∧
      run.2.world.journal.happenings =
        [.heard "root" .failure, .note "log now depth=0 gen=1 pending=1 cost=0"] ∧
      reference.2.world.journal.happenings =
        [.note "log b depth=0 gen=1 pending=0 cost=0",
          .note "log now depth=0 gen=1 pending=0 cost=0"]) ∧
    pruneMachine.taken prune belated 2 = [⟨⟨belatedFrame, 0, 5⟩, 1, false⟩] ∧
      ((belated.exec pruneMachine).2.splice.history prune 2).begun = [] ∧
      begunEager prune 2 (belated.execEager pruneMachine).2.splice =
        [(⟨belatedFrame, 0, 5⟩, pruneMachine.world)] := by
  intro meaning run reference
  have hcourse : Course meaning (recount.exec narrowMachine).2.splice
      ((recount.exec narrowMachine).2.splice.history meaning 3)
      (.aborted (.ofCeiling (.queueOverflow 1))) run.2 := course_of_drain rfl (by decide)
  refine ⟨⟨fun fuel x hx => ?_, rfl, rfl, rfl, rfl⟩, rfl, rfl, rfl⟩
  rw [taken_eq] at hx
  have htaken : ((Ledger.after {} (recount.history narrowMachine)).taken
      ((recount.exec narrowMachine).2.splice.history meaning 3)).map Taken.discards = [0] := rfl
  have hmem := List.mem_map_of_mem (f := Taken.discards)
    (Ledger.mem_taken_of_course hcourse fuel x hx)
  rw [htaken] at hmem
  exact List.mem_singleton.mp hmem

end Machine

end Trampoline
