import Trampoline.Proofs.Machine.Ledger

/-! Discarding at once.

The reference machine takes a governor's entries out of the queue and out of what is
staged as soon as they are discarded (`expel`), and so never asks whether an entry is
alive. The machine itself leaves them where they are and drops them when their turn
comes.

What the reference holds is what the machine holds without the entries that the ledger
counts a discard for (`purged`). Work does the same on both (`execEager_purged`), so does
a turn (`performEager_purged`), and a dead entry is one the reference does not have. So
the two perform the same entries (`mirrors_of_machine`, `mirrors_of_reference`), as long as
no entry is dead already when it is queued (`History.timely`), and none waits through 2³²
discards. -/
namespace Trampoline

variable {σ α β : Type}

/-! ### The reference -/

namespace Machine

/-- Discards the work of a governor, if it is one, by taking it out. -/
def expel (m : Machine σ α) (g : GovernorId) : Machine σ α :=
  let others (b : Backlog (Entry α)) : Backlog (Entry α) :=
    .ofList (b.toList.filter fun e => e.frame.governor != g)
  if g < m.governors.size then
    { m.discard g with queue := others m.queue, staged := others m.staged }
  else m

end Machine

/-- Runs the operations on the reference machine. -/
def Work.execEager : Work σ α β → Machine σ α → Except Fault β × Machine σ α
  | .done b, m => (.ok b, m)
  | .abort fault, m => (.error fault, m)
  | .charge units next, m =>
    let (result, m) := m.charge units
    (next result).execEager m
  | .stage e next, m => (next ()).execEager (m.stage e)
  | .discard g next, m => (next ()).execEager (m.expel g)
  | .govern d next, m =>
    let (g, m) := m.govern d
    (next g).execEager m
  | .update change next, m => (next ()).execEager { m with world := change m.world }
  | .observe next, m => (next m.world).execEager m
  | .generation g next, m => (next (m.generation g)).execEager m
  | .depth next, m => (next m.depth).execEager m
  | .cost next, m => (next m.cost).execEager m
  | .forkLimit next, m => (next m.limits.forks).execEager m
  | .pending next, m => (next m.pending).execEager m

namespace Machine

variable [Audience σ]

/-- Runs one entry. -/
def performEager (mean : α → Frame → Work σ α Unit) (m : Machine σ α) (e : Entry α) :
    Option Fault × Machine σ α :=
  match (mean e.action e.frame).execEager m with
  | (.error fault, m) => (some fault, m.abort e.frame)
  | (.ok (), m) =>
    let m := m.splice
    if m.overflow then (some (.ofCeiling (.queueOverflow m.limits.queue)), m.abort e.frame)
    else (none, m)

/-- Runs every entry there is. -/
def drainEager (mean : α → Frame → Work σ α Unit) : Nat → Machine σ α → Ending × Machine σ α
  | 0, m =>
    match m.queue.toList with
    | [] => (.finished m.cost m.deepest, m)
    | _ :: _ => (.unfinished, m)
  | fuel + 1, m =>
    match m.queue.toList with
    | [] => (.finished m.cost m.deepest, m)
    | e :: rest =>
      match performEager mean (m.begin e rest) e with
      | (some fault, m) => (.aborted fault, m)
      | (none, m) => drainEager mean fuel m

/-- The entries that the reference runs, each with the world it finds. -/
def begunEager (mean : α → Frame → Work σ α Unit) : Nat → Machine σ α → List (Entry α × σ)
  | 0, _ => []
  | fuel + 1, m =>
    match m.queue.toList with
    | [] => []
    | e :: rest =>
      (e, m.world) :: match performEager mean (m.begin e rest) e with
        | (some _, _) => []
        | (none, m) => begunEager mean fuel m

end Machine

namespace History

/-- The entries performed, each with the world it found. -/
def begun (h : History σ α) : List (Entry α × σ) :=
  h.filterMap fun
    | (.begun e, m) => some (e, m.world)
    | _ => none

/-- Whether every entry was alive when it was queued, however long before that it was made. -/
def timely (h : History σ α) : Bool :=
  h.all fun
    | (.queued e, m) => m.isLive e
    | _ => true

theorem timely_append (a b : History σ α) : timely (a ++ b) = (timely a && timely b) :=
  List.all_append

end History

namespace Machine

variable [Audience σ] {mean : α → Frame → Work σ α Unit} {m m₁ m' : Machine σ α} {e : Entry α}
  {rest : List (Entry α)}

/-- From here on every entry is alive when it is queued. -/
def Timely (mean : α → Frame → Work σ α Unit) (m : Machine σ α) : Prop :=
  ∀ fuel, (m.history mean fuel).timely = true

theorem Timely.dropped (ht : m.Timely mean) (hq : m.queue.toList = e :: rest)
    (hl : m.isLive e = false) : (m.without rest).Timely mean := by
  intro fuel
  have h := ht (fuel + 1)
  rw [history_of_dead hq hl] at h
  exact h

/-- The next live entry queues none that is dead. -/
theorem Timely.turn (ht : m.Timely mean) (hq : m.queue.toList = e :: rest)
    (hl : m.isLive e = true) :
    ((mean e.action e.frame).history (m.begin e rest)).timely = true := by
  have h := ht 1
  rw [history_of_live hq hl, History.timely_append, Bool.and_eq_true] at h
  exact h.1

theorem Timely.performed (ht : m.Timely mean) (hq : m.queue.toList = e :: rest)
    (hl : m.isLive e = true) (hp : perform mean (m.begin e rest) e = (none, m₁)) :
    m₁.Timely mean := by
  intro fuel
  have h := ht (fuel + 1)
  rw [history_of_live hq hl, hp, History.timely_append, Bool.and_eq_true] at h
  exact h.2

/-- A run that comes to its end tells it. -/
theorem Course.timely {h : History σ α} {ending : Ending} (c : Course mean m h ending m')
    (htimely : h.timely = true) : m.Timely mean := by
  intro fuel
  obtain ⟨later, rfl⟩ := c.history_prefix fuel
  rw [History.timely_append, Bool.and_eq_true] at htimely
  exact htimely.1

end Machine

/-! ### The machine without its dead entries -/

namespace Ledger

/-- The entries that were not discarded. -/
def fresh (l : List (Entry α × Nat)) : List (Entry α) := (l.filter (·.2 == 0)).map Prod.fst

theorem fresh_append (l k : List (Entry α × Nat)) : fresh (l ++ k) = fresh l ++ fresh k := by
  rw [fresh, List.filter_append, List.map_append]
  rfl

theorem fresh_reverse (l : List (Entry α × Nat)) : fresh l.reverse = (fresh l).reverse := by
  rw [fresh, List.filter_reverse, List.map_reverse]
  rfl

theorem length_fresh_le (l : List (Entry α × Nat)) : (fresh l).length ≤ l.length := by
  rw [fresh, List.length_map]
  exact List.length_filter_le ..

theorem fresh_cons_of_ne {x : Entry α × Nat} (h : x.2 ≠ 0) (l : List (Entry α × Nat)) :
    fresh (x :: l) = fresh l := by
  rw [fresh, List.filter_cons_of_neg (by simpa using h)]
  rfl

/-- Those that are still there after a discard are the others. -/
theorem fresh_map_count (g : GovernorId) (l : List (Entry α × Nat)) :
    fresh (l.map (count g)) = (fresh l).filter fun e => e.frame.governor != g := by
  induction l with
  | nil => rfl
  | cons x l ih =>
    rw [List.map_cons]
    by_cases hg : x.1.frame.governor = g
    · have hcount : (count g x).2 ≠ 0 := by
        rw [count, if_pos hg]
        exact Nat.succ_ne_zero _
      rw [fresh_cons_of_ne hcount, ih]
      by_cases hx : x.2 = 0
      · simp [fresh, hx, hg]
      · rw [fresh_cons_of_ne hx]
    · have hcount : count g x = x := by rw [count, if_neg hg]
      rw [hcount]
      by_cases hx : x.2 = 0
      · have hcons (k : List (Entry α × Nat)) : fresh (x :: k) = x.1 :: fresh k := by
          rw [fresh, List.filter_cons_of_pos (by simp [hx])]
          rfl
        rw [hcons, hcons, ih, List.filter_cons_of_pos (by simpa using hg)]
      · rw [fresh_cons_of_ne hx, fresh_cons_of_ne hx, ih]

end Ledger

namespace Machine

/-- The machine with only those entries that were not discarded since the ledger has them. -/
def purged (m : Machine σ α) (t : Ledger α) : Machine σ α :=
  { m with queue := .ofList (Ledger.fresh t.queue), staged := .ofList (Ledger.fresh t.staged) }

variable {m m₁ : Machine σ α} {t : Ledger α} {e : Entry α} {rest : List (Entry α)}

theorem purged_idle (h : m.pending = 0) : m.purged {} = m := by
  obtain ⟨hqueue, hstaged, -⟩ := Ledger.tracks_idle h
  have hq : m.queue = .ofList [] := Backlog.ext_toList hqueue.symm
  have hs : m.staged = .ofList [] := Backlog.ext_toList hstaged.symm
  obtain ⟨limits, world, cost, queue, staged⟩ := m
  subst hq hs
  rfl

theorem pending_purged_le (ht : t.Tracks m) : (m.purged t).pending ≤ m.pending := by
  have hqueue := congrArg List.length ht.queue
  have hstaged := congrArg List.length ht.staged
  rw [List.length_map] at hqueue hstaged
  have hq := Ledger.length_fresh_le t.queue
  have hs := Ledger.length_fresh_le t.staged
  simp only [pending, purged, Backlog.size_ofList, m.queue.size_eq, m.staged.size_eq]
  omega

theorem stage_purged (ht : t.Tracks m) {e : Entry α} (hl : m.isLive e = true)
    (h : (m.stage e).pending ≤ m.limits.queue) :
    (m.purged t).stage e = (m.stage e).purged (t.step (.queued e, m.stage e)) := by
  have hless : ((m.purged t).stage e).pending ≤ (m.stage e).pending :=
    Nat.succ_le_succ (pending_purged_le ht)
  have hstep : t.step (.queued e, m.stage e) = { t with staged := (e, 0) :: t.staged } := by
    rw [Ledger.step, behind_of_live (m := m.stage e) hl]
  rw [hstep, stage_of_pending_le _ _ h, stage_of_pending_le _ _ (Nat.le_trans hless h)]
  rfl

theorem expel_purged (m : Machine σ α) (t : Ledger α) (g : GovernorId) :
    (m.purged t).expel g = (m.discard g).purged (t.step (.discarded g, m.discard g)) := by
  have hsize : (m.discard g).governors.size = m.governors.size := Array.size_modify
  rw [expel, Ledger.step, hsize]
  by_cases hg : g < m.governors.size
  · rw [if_pos hg, if_pos (show g < (m.purged t).governors.size from hg)]
    unfold purged Ledger.discard
    rw [Ledger.fresh_map_count, Ledger.fresh_map_count]
    rfl
  · rw [if_neg hg, if_neg (show ¬ g < (m.purged t).governors.size from hg),
      discard_of_size_le m (Nat.le_of_not_lt hg)]

theorem splice_purged (m : Machine σ α) (t : Ledger α) :
    (m.purged t).splice = m.splice.purged t.splice := by
  have hqueue : (Backlog.ofList (Ledger.fresh t.staged)).splice (.ofList (Ledger.fresh t.queue)) =
      .ofList (Ledger.fresh t.splice.queue) := by
    refine Backlog.ext_toList ?_
    rw [Backlog.toList_splice, Ledger.splice, Ledger.fresh_append, Ledger.fresh_reverse]
    rfl
  unfold splice purged
  rw [hqueue]
  rfl

/-- Work does on the reference what it does on the machine. -/
theorem execEager_purged {w : Work σ α β} (hb : w.Blind) (ht : t.Tracks m)
    (h : (w.history m).peak ≤ m.limits.queue) (hlive : (w.history m).timely = true) :
    w.execEager (m.purged t) = ((w.exec m).1, (w.exec m).2.purged (t.after (w.history m))) := by
  induction w generalizing m t with
  | done b => rfl
  | abort fault => rfl
  | charge units next ih =>
    exact ih _ (hb _) (m := (m.charge units).2) ⟨ht.queue, ht.staged, ht.stamps⟩ h hlive
  | stage e next ih =>
    obtain ⟨hstage, hrest⟩ := Nat.max_le.mp h
    obtain ⟨hfirst, hlater⟩ := Bool.and_eq_true_iff.mp hlive
    change (next ()).execEager ((m.purged t).stage e) = _
    rw [stage_purged ht hfirst hstage]
    exact ih _ hb (ht.stage e) hrest hlater
  | discard g next ih =>
    change (next ()).execEager ((m.purged t).expel g) = _
    rw [expel_purged]
    exact ih _ hb (ht.discard g) h hlive
  | govern d next ih => exact ih _ (hb _) (ht.govern d) h hlive
  | update change next ih =>
    exact ih _ hb (m := { m with world := change m.world }) ⟨ht.queue, ht.staged, ht.stamps⟩ h hlive
  | observe next ih => exact ih _ (hb _) ht h hlive
  | generation g next ih => exact ih _ (hb _) ht h hlive
  | depth next ih => exact ih _ (hb _) ht h hlive
  | cost next ih => exact ih _ (hb _) ht h hlive
  | forkLimit next ih => exact ih _ (hb _) ht h hlive
  | pending next ih => exact hb.elim

/-- What is queued on an idle machine is queued alike on both. -/
theorem splice_execEager {w : Work σ α β} (hb : w.Blind) (hidle : m.pending = 0)
    (h : (w.history m).peak ≤ m.limits.queue) (hlive : (w.history m).timely = true) :
    (w.execEager m).1 = (w.exec m).1 ∧
      (w.execEager m).2.splice =
        (w.exec m).2.splice.purged (Ledger.after {} (w.history m)).splice := by
  have hexec := execEager_purged hb (Ledger.tracks_idle hidle) h hlive
  rw [purged_idle hidle] at hexec
  rw [hexec, splice_purged]
  exact ⟨rfl, rfl⟩

variable [Audience σ] {mean : α → Frame → Work σ α Unit} {fault : Fault} {fuel fuel' : Nat}

/-- So does an entry in its turn. -/
theorem performEager_purged (hb : (mean e.action e.frame).Blind) (ht : t.Tracks m)
    (h : ((mean e.action e.frame).history m).peak ≤ m.limits.queue)
    (hlive : ((mean e.action e.frame).history m).timely = true) :
    performEager mean (m.purged t) e =
      match perform mean m e with
      | (some fault, m₁) => (some fault, m₁)
      | (none, m₁) =>
        (none, m₁.purged (t.after ((mean e.action e.frame).history m)).splice) := by
  rw [performEager, execEager_purged hb ht h hlive]
  match hx : (mean e.action e.frame).exec m with
  | (.error fault, m₂) =>
    rw [perform_of_error hx]
    rfl
  | (.ok (), m₂) =>
    rw [perform_of_ok hx]
    simp only [splice_purged]
    cases ho : m₂.overflow with
    | true => exact if_pos ho
    | false => exact if_neg (ne_true_of_eq_false ho)

/-! ### Turn by turn -/

theorem drainEager_of_nil (hq : m.queue.toList = []) :
    drainEager mean fuel m = (.finished m.cost m.deepest, m) := by
  cases fuel <;> rw [drainEager, hq]

theorem drainEager_zero (hq : m.queue.toList = e :: rest) :
    drainEager mean 0 m = (.unfinished, m) := by
  rw [drainEager, hq]

theorem drainEager_of_cons (hq : m.queue.toList = e :: rest) :
    drainEager mean (fuel + 1) m =
      match performEager mean (m.begin e rest) e with
      | (some fault, m) => (.aborted fault, m)
      | (none, m) => drainEager mean fuel m := by
  rw [drainEager, hq]

theorem begunEager_of_nil (hq : m.queue.toList = []) : begunEager mean fuel m = [] := by
  cases fuel with
  | zero => rfl
  | succ fuel => rw [begunEager, hq]

theorem begunEager_of_cons (hq : m.queue.toList = e :: rest) :
    begunEager mean (fuel + 1) m =
      (e, m.world) :: match performEager mean (m.begin e rest) e with
        | (some _, _) => []
        | (none, m) => begunEager mean fuel m := by
  rw [begunEager, hq]

omit [Audience σ] in
theorem begun_turn (h : History σ α) :
    (m.turn mean e rest ++ h).begun = (e, m.world) :: h.begun := by
  have hwork : ((mean e.action e.frame).history (m.begin e rest)).begun = [] := by
    have hnone := (Work.history_no_turns (mean e.action e.frame) (m.begin e rest)).1
    refine List.filterMap_eq_nil_iff.mpr fun x hx => ?_
    have hx := List.filterMap_eq_nil_iff.mp hnone x hx
    obtain ⟨mark, m⟩ := x
    cases mark with
    | begun e => cases hx
    | _ => rfl
  rw [turn, List.cons_append, History.begun, List.filterMap_cons, List.filterMap_append]
  exact congrArg _ ((congrArg (· ++ h.begun) hwork).trans (List.nil_append _))

omit [Audience σ] in
/-- A machine with nothing left has nothing dead. -/
theorem purged_of_nil (ht : t.splice.Tracks m) (hq : m.queue.toList = []) :
    m.purged t.splice = m := by
  have hnone : t.splice = {} := by
    have hqueue : t.splice.queue = [] := List.map_eq_nil_iff.mp (ht.queue.trans hq)
    exact congrArg (fun queue => (⟨queue, []⟩ : Ledger α)) hqueue
  have hpending : m.pending = 0 := by
    rw [pending, m.queue.size_eq, hq, m.staged.size_eq, ← ht.staged]
    rfl
  rw [hnone, purged_idle hpending]

omit [Audience σ] in
/-- The reference does not have a dead entry. -/
theorem purged_of_dead (ht : t.splice.Tracks m) (hq : m.queue.toList = e :: rest)
    (hl : m.isLive e = false) : m.purged t.splice = (m.without rest).purged t.tail := by
  obtain ⟨left, hleft, -, htail⟩ := ht.next_cons hq
  have hnext : t.next ≠ 0 := by
    intro hzero
    have hlive := (ht.isLive_iff hq).mpr (hzero ▸ Nat.dvd_zero _)
    cases hl.symm.trans hlive
  have hfresh : Ledger.fresh t.splice.queue = Ledger.fresh t.tail.queue := by
    rw [hleft, htail]
    exact Ledger.fresh_cons_of_ne hnext left
  unfold purged
  rw [hfresh]
  rfl

omit [Audience σ] in
/-- A live entry is the next one of the reference too, unless it waited through too many
discards. -/
theorem purged_of_live (ht : t.splice.Tracks m) (hq : m.queue.toList = e :: rest)
    (hl : m.isLive e = true) (hfew : t.next < UInt32.size) :
    ∃ rest', (m.purged t.splice).queue.toList = e :: rest' ∧
      (m.purged t.splice).begin e rest' = (m.begin e rest).purged t.tail := by
  obtain ⟨left, hleft, -, htail⟩ := ht.next_cons hq
  have hzero : t.next = 0 := Nat.eq_zero_of_dvd_of_lt ((ht.isLive_iff hq).mp hl) hfew
  refine ⟨Ledger.fresh left, ?_, ?_⟩
  · rw [hzero] at hleft
    exact congrArg Ledger.fresh hleft
  · rw [htail]
    rfl

/-- The reference `M` performs the entries that the machine performs, in the worlds it does, and
comes to the same end if the machine comes to one. -/
structure Mirrors (mean : α → Frame → Work σ α Unit) (m M : Machine σ α) (fuel fuel' : Nat) :
    Prop where
  begun : begunEager mean fuel' M = (m.history mean fuel).begun
  drain : (drain mean fuel m).1 ≠ .unfinished → drainEager mean fuel' M = drain mean fuel m

theorem mirrors_finished (ht : t.splice.Tracks m) (hq : m.queue.toList = []) :
    Mirrors mean m (m.purged t.splice) fuel fuel' := by
  rw [purged_of_nil ht hq]
  refine ⟨?_, fun _ => ?_⟩
  · rw [history_of_nil hq, begunEager_of_nil hq]
    rfl
  · rw [drainEager_of_nil hq, drain_of_nil hq]

theorem Mirrors.dropped (ht : t.splice.Tracks m) (hq : m.queue.toList = e :: rest)
    (hl : m.isLive e = false)
    (h : Mirrors mean (m.without rest) ((m.without rest).purged t.tail) fuel fuel') :
    Mirrors mean m (m.purged t.splice) (fuel + 1) fuel' := by
  rw [purged_of_dead ht hq hl]
  refine ⟨?_, ?_⟩
  · rw [history_of_dead hq hl]
    exact h.begun
  · rw [drain_of_dead hq hl]
    exact h.drain

/-- The two take the same turn with a live entry. -/
theorem performEager_of_live (hb : ∀ a frame, (mean a frame).Blind) (hr : m.Roomy mean)
    (htimely : m.Timely mean) (ht : t.splice.Tracks m) (hq : m.queue.toList = e :: rest)
    (hl : m.isLive e = true)
    (hfew : t.next < UInt32.size) :
    ∃ rest', (m.purged t.splice).queue.toList = e :: rest' ∧
      performEager mean ((m.purged t.splice).begin e rest') e =
        match perform mean (m.begin e rest) e with
        | (some fault, m₁) => (some fault, m₁)
        | (none, m₁) => (none, m₁.purged
            (t.tail.after ((mean e.action e.frame).history (m.begin e rest))).splice) := by
  obtain ⟨rest', hq', hbegin⟩ := purged_of_live ht hq hl hfew
  refine ⟨rest', hq', ?_⟩
  rw [hbegin]
  exact performEager_purged (hb _ _) (ht.begin hq) (hr.turn hq hl) (htimely.turn hq hl)

theorem mirrors_failed {M : Machine σ α} {rest' : List (Entry α)} (hq : m.queue.toList = e :: rest)
    (hl : m.isLive e = true) (hp : perform mean (m.begin e rest) e = (some fault, m₁))
    (hq' : M.queue.toList = e :: rest')
    (hp' : performEager mean (M.begin e rest') e = (some fault, m₁)) (hworld : M.world = m.world) :
    Mirrors mean m M (fuel + 1) (fuel' + 1) := by
  refine ⟨?_, fun _ => ?_⟩
  · rw [begunEager_of_cons hq', history_of_live hq hl, begun_turn, hp, hp', hworld]
    rfl
  · rw [drainEager_of_cons hq', drain_of_live hq hl, hp, hp']

theorem Mirrors.performed {M M₁ : Machine σ α} {rest' : List (Entry α)}
    (hq : m.queue.toList = e :: rest) (hl : m.isLive e = true)
    (hp : perform mean (m.begin e rest) e = (none, m₁)) (hq' : M.queue.toList = e :: rest')
    (hp' : performEager mean (M.begin e rest') e = (none, M₁)) (hworld : M.world = m.world)
    (h : Mirrors mean m₁ M₁ fuel fuel') : Mirrors mean m M (fuel + 1) (fuel' + 1) := by
  refine ⟨?_, ?_⟩
  · rw [begunEager_of_cons hq', history_of_live hq hl, begun_turn, hp, hp', hworld]
    exact congrArg _ h.begun
  · rw [drainEager_of_cons hq', drain_of_live hq hl, hp, hp']
    exact h.drain

/-- What the machine does with the fuel it is given, the reference does with that much or less. -/
theorem mirrors_of_machine (hb : ∀ a frame, (mean a frame).Blind) (hr : m.Roomy mean)
    (htimely : m.Timely mean) (ht : t.splice.Tracks m)
    (hfew : ∀ x ∈ t.taken (m.history mean fuel), x.discards < UInt32.size) :
    ∃ fuel' ≤ fuel, Mirrors mean m (m.purged t.splice) fuel fuel' := by
  induction fuel generalizing m t with
  | zero =>
    refine ⟨0, Nat.le_refl _, ?_⟩
    cases hq : m.queue.toList with
    | nil => exact mirrors_finished ht hq
    | cons e rest => exact ⟨rfl, fun hends => absurd (by rw [drain_zero hq]) hends⟩
  | succ fuel ih =>
    cases hq : m.queue.toList with
    | nil => exact ⟨0, Nat.zero_le _, mirrors_finished ht hq⟩
    | cons e rest =>
      cases hl : m.isLive e with
      | false =>
        rw [history_of_dead hq hl] at hfew
        obtain ⟨fuel', hle, h⟩ := ih (t := t.tail) (hr.dropped hq hl) (htimely.dropped hq hl)
          (ht.without hq)
          (List.forall_mem_cons.mp hfew).2
        exact ⟨fuel', Nat.le_succ_of_le hle, h.dropped ht hq hl⟩
      | true =>
        rw [history_of_live hq hl, Ledger.taken_turn] at hfew
        obtain ⟨hnext, hfew⟩ := List.forall_mem_cons.mp hfew
        obtain ⟨rest', hq', hp'⟩ := performEager_of_live hb hr htimely ht hq hl hnext
        match hp : perform mean (m.begin e rest) e with
        | (some fault, m₁) =>
          rw [hp] at hp'
          exact ⟨1, Nat.succ_le_succ (Nat.zero_le _), mirrors_failed hq hl hp hq' hp' rfl⟩
        | (none, m₁) =>
          rw [hp] at hfew hp'
          obtain ⟨fuel', hle, h⟩ := ih (hr.performed hq hl hp) (htimely.performed hq hl hp)
            (ht.turn hq hp) hfew
          exact ⟨fuel' + 1, Nat.succ_le_succ hle, h.performed hq hl hp hq' hp' rfl⟩

/-- What the reference does with the fuel it is given, the machine does with some more for what is
dead. -/
theorem mirrors_of_reference {m : Machine σ α} {t : Ledger α} (fuel' : Nat)
    (hb : ∀ a frame, (mean a frame).Blind) (hr : m.Roomy mean) (htimely : m.Timely mean)
    (ht : t.splice.Tracks m)
    (hfew : ∀ fuel, ∀ x ∈ t.taken (m.history mean fuel), x.discards < UInt32.size) :
    ∃ fuel, Mirrors mean m (m.purged t.splice) fuel fuel' ∧
      (drain mean fuel m).1 = (drainEager mean fuel' (m.purged t.splice)).1 := by
  cases hq : m.queue.toList with
  | nil =>
    refine ⟨0, mirrors_finished ht hq, ?_⟩
    rw [purged_of_nil ht hq, drainEager_of_nil hq, drain_of_nil hq]
  | cons e rest =>
    cases hl : m.isLive e with
    | false =>
      have hfew' (fuel : Nat) : ∀ x ∈ t.tail.taken ((m.without rest).history mean fuel),
          x.discards < UInt32.size := by
        have h := hfew (fuel + 1)
        rw [history_of_dead hq hl] at h
        exact (List.forall_mem_cons.mp h).2
      obtain ⟨fuel, h, hends⟩ := mirrors_of_reference (t := t.tail) fuel' hb (hr.dropped hq hl)
        (htimely.dropped hq hl) (ht.without hq) hfew'
      refine ⟨fuel + 1, h.dropped ht hq hl, ?_⟩
      rw [drain_of_dead hq hl, purged_of_dead ht hq hl]
      exact hends
    | true =>
      have hturn (fuel : Nat) := hfew (fuel + 1)
      simp only [history_of_live hq hl, Ledger.taken_turn, List.forall_mem_cons] at hturn
      obtain ⟨rest', hq', hp'⟩ := performEager_of_live hb hr htimely ht hq hl (hturn 0).1
      cases hfuel : fuel' with
      | zero =>
        refine ⟨0, ⟨rfl, fun hends => absurd (by rw [drain_zero hq]) hends⟩, ?_⟩
        rw [drain_zero hq, drainEager_zero hq']
      | succ fuel' =>
        match hp : perform mean (m.begin e rest) e with
        | (some fault, m₁) =>
          rw [hp] at hp'
          refine ⟨1, mirrors_failed hq hl hp hq' hp' rfl, ?_⟩
          rw [drain_of_live hq hl, drainEager_of_cons hq', hp, hp']
        | (none, m₁) =>
          rw [hp] at hp'
          simp only [hp] at hturn
          obtain ⟨fuel, h, hends⟩ := mirrors_of_reference fuel' hb (hr.performed hq hl hp)
            (htimely.performed hq hl hp) (ht.turn hq hp) fun fuel => (hturn fuel).2
          refine ⟨fuel + 1, h.performed hq hl hp hq' hp' rfl, ?_⟩
          rw [drain_of_live hq hl, drainEager_of_cons hq', hp, hp']
          exact hends
-- A dead entry makes the queue shorter, a live one takes a unit of the reference's fuel.
termination_by (fuel', m.queue.toList.length)
decreasing_by
  · rw [hq]
    exact .right _ (Nat.lt_succ_self _)
  · rw [hfuel]
    exact .left _ _ (Nat.lt_succ_self _)

end Machine

end Trampoline
