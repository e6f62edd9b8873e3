import Trampoline.Proofs.Machine.Stamps

/-! How often entries are discarded while they wait.

A ledger is kept beside a run and from its history alone: it holds what waits, each
entry with the number of times its governor was discarded since the entry was queued.
An entry that is dead when it is queued starts with as many as its stamp is behind.
`Tracks` says that a ledger and a machine hold the same entries, and that each stamp is
behind its governor's generation by just that number. Every operation keeps it
(`tracks_exec`), and every turn does (`Tracks.turn`). -/
namespace Trampoline

variable {σ α β : Type}

/-- An entry taken off the queue, and how often its governor was discarded while it waited. -/
structure Taken (α : Type) where
  entry : Entry α
  discards : Nat
  performed : Bool

namespace Machine

/-- By how many generations an entry's stamp is behind. -/
def behind (m : Machine σ α) (e : Entry α) : Nat := (m.generation e.frame.governor - e.stamp).toNat

theorem generation_eq_behind (m : Machine σ α) (e : Entry α) :
    m.generation e.frame.governor = e.stamp + .ofNat (m.behind e) := by
  rw [behind, UInt32.ofNat_toNat, UInt32.add_comm, UInt32.sub_add_cancel]

theorem behind_of_live {m : Machine σ α} {e : Entry α} (h : m.isLive e = true) : m.behind e = 0 := by
  rw [behind, beq_iff_eq.mp h, UInt32.sub_self]
  rfl

theorem isLive_entry (m : Machine σ α) (frame : Frame) (action : α) :
    m.isLive (m.entry frame action) = true := beq_self_eq_true _

end Machine

/-- What waits, as a machine keeps it: the staged entries are newest first. -/
structure Ledger (α : Type) where
  queue : List (Entry α × Nat) := []
  staged : List (Entry α × Nat) := []

namespace Ledger

/-- One more discard of `g`. -/
def count (g : GovernorId) (x : Entry α × Nat) : Entry α × Nat :=
  (x.1, if x.1.frame.governor = g then x.2 + 1 else x.2)

def discard (t : Ledger α) (g : GovernorId) : Ledger α :=
  ⟨t.queue.map (count g), t.staged.map (count g)⟩

/-- The staged entries go in front. -/
def splice (t : Ledger α) : Ledger α := ⟨t.staged.reverse ++ t.queue, []⟩

/-- The next entry is taken off. -/
def tail (t : Ledger α) : Ledger α := ⟨t.splice.queue.tail, []⟩

/-- The count of the next entry. -/
def next (t : Ledger α) : Nat := (t.splice.queue.head?.map Prod.snd).getD 0

def step (t : Ledger α) : Mark α × Machine σ α → Ledger α
  | (.begun _, _) => t.tail
  | (.dropped _, _) => t.tail
  | (.queued e, m) => { t with staged := (e, m.behind e) :: t.staged }
  | (.discarded g, m) => if g < m.governors.size then t.discard g else t
  | _ => t

/-- The ledger at the end of a history. -/
def after (t : Ledger α) (h : History σ α) : Ledger α := h.foldl step t

/-- The entries taken off the queue, in order. -/
def taken (t : Ledger α) : History σ α → List (Taken α)
  | [] => []
  | x :: h =>
    (x.1.taken?.map fun (e, performed) => (⟨e, t.next, performed⟩ : Taken α)).toList ++
      (t.step x).taken h

theorem taken_append (t : Ledger α) (a b : History σ α) :
    t.taken (a ++ b) = t.taken a ++ (t.after a).taken b := by
  induction a generalizing t with
  | nil => rfl
  | cons x a ih =>
    rw [List.cons_append, taken, taken, ih, List.append_assoc]
    rfl

/-- Only the loop takes entries off the queue. -/
theorem taken_history (w : Work σ α β) (m : Machine σ α) (t : Ledger α) :
    t.taken (w.history m) = [] := by
  induction w generalizing m t with
  | done b => rfl
  | abort fault => rfl
  | charge units next ih => exact ih _ _ _
  | stage e next ih => exact ih _ _ _
  | discard g next ih => exact ih _ _ _
  | govern d next ih => exact ih _ _ _
  | update change next ih => exact ih _ _ _
  | observe next ih => exact ih _ _ _
  | generation g next ih => exact ih _ _ _
  | depth next ih => exact ih _ _ _
  | cost next ih => exact ih _ _ _
  | forkLimit next ih => exact ih _ _ _
  | pending next ih => exact ih _ _ _

/-- What happens in a turn, seen from the ledger: the next entry is taken off, and then the turn's
work goes on from there. -/
theorem taken_turn (t : Ledger α) (mean : α → Frame → Work σ α Unit) (m : Machine σ α)
    (e : Entry α) (rest : List (Entry α)) (h : History σ α) :
    t.taken (m.turn mean e rest ++ h) = ⟨e, t.next, true⟩ ::
      (t.tail.after ((mean e.action e.frame).history (m.begin e rest))).taken h := by
  rw [Machine.turn, List.cons_append, taken, taken_append, taken_history]
  rfl

/-! ### Ledgers and machines -/

/-- The ledger holds what the machine does, and its counts are right. -/
structure Tracks (t : Ledger α) (m : Machine σ α) : Prop where
  queue : t.queue.map Prod.fst = m.queue.toList
  staged : t.staged.map Prod.fst = m.staged.toList
  stamps : ∀ x ∈ t.queue ++ t.staged, m.generation x.1.frame.governor = x.1.stamp + .ofNat x.2

variable {t : Ledger α} {m : Machine σ α}

theorem tracks_idle (h : m.pending = 0) : Tracks {} m := by
  simp only [Machine.pending, m.queue.size_eq, m.staged.size_eq, Nat.add_eq_zero_iff,
    List.length_eq_zero_iff] at h
  exact ⟨h.1.symm, h.2.symm, fun _ hx => absurd hx List.not_mem_nil⟩

theorem Tracks.stage (ht : t.Tracks m) (e : Entry α) :
    (t.step (.queued e, m.stage e)).Tracks (m.stage e) := by
  refine ⟨ht.queue, congrArg (List.cons _) ht.staged, fun x hx => ?_⟩
  rcases List.mem_append.mp hx with hx | hx
  · exact ht.stamps x (List.mem_append_left _ hx)
  · rcases List.mem_cons.mp hx with rfl | hx
    · exact (m.stage e).generation_eq_behind e
    · exact ht.stamps x (List.mem_append_right _ hx)

theorem map_fst_count (g : GovernorId) (l : List (Entry α × Nat)) :
    (l.map (count g)).map Prod.fst = l.map Prod.fst := by
  rw [List.map_map]
  rfl

theorem Tracks.discard (ht : t.Tracks m) (g : GovernorId) :
    (t.step (.discarded g, m.discard g)).Tracks (m.discard g) := by
  have hsize : (m.discard g).governors.size = m.governors.size := Array.size_modify
  rw [step, hsize]
  by_cases hg : g < m.governors.size
  · rw [if_pos hg]
    refine ⟨(map_fst_count g t.queue).trans ht.queue, (map_fst_count g t.staged).trans ht.staged,
      fun x hx => ?_⟩
    rw [Ledger.discard, ← List.map_append] at hx
    obtain ⟨y, hy, rfl⟩ := List.mem_map.mp hx
    have hstamp := ht.stamps y hy
    rw [count]
    by_cases hgy : y.1.frame.governor = g
    · rw [if_pos hgy, hgy, Machine.generation_discard m hg, ← hgy, hstamp, UInt32.ofNat_add,
        UInt32.add_assoc]
      rfl
    · rw [if_neg hgy, Machine.generation_discard_of_ne m hgy]
      exact hstamp
  · rw [if_neg hg, Machine.discard_of_size_le m (Nat.le_of_not_lt hg)]
    exact ht

theorem Tracks.govern (ht : t.Tracks m) (depth : Nat) : t.Tracks (m.govern depth).2 :=
  ⟨ht.queue, ht.staged, fun x hx => (Machine.generation_govern m depth _).trans (ht.stamps x hx)⟩

theorem tracks_exec (w : Work σ α β) (ht : t.Tracks m) :
    (t.after (w.history m)).Tracks (w.exec m).2 := by
  induction w generalizing m t with
  | done b => exact ht
  | abort fault => exact ht
  | charge units next ih => exact ih _ ⟨ht.queue, ht.staged, ht.stamps⟩
  | stage e next ih => exact ih _ (ht.stage e)
  | discard g next ih => exact ih _ (ht.discard g)
  | govern d next ih => exact ih _ (ht.govern d)
  | update change next ih => exact ih _ ⟨ht.queue, ht.staged, ht.stamps⟩
  | observe next ih => exact ih _ ht
  | generation g next ih => exact ih _ ht
  | depth next ih => exact ih _ ht
  | cost next ih => exact ih _ ht
  | forkLimit next ih => exact ih _ ht
  | pending next ih => exact ih _ ht

theorem Tracks.splice (ht : t.Tracks m) : t.splice.Tracks m.splice := by
  refine ⟨?_, rfl, fun x hx => ht.stamps x ?_⟩
  · rw [Ledger.splice, List.map_append, List.map_reverse, ht.queue, ht.staged]
    exact (Backlog.toList_splice ..).symm
  · simp only [Ledger.splice, List.append_nil, List.mem_append, List.mem_reverse] at hx
    exact List.mem_append.mpr hx.symm

/-! ### Through the loop -/

variable {e : Entry α} {rest : List (Entry α)}

/-- The next entry is the first one of the ledger. -/
theorem Tracks.next_cons (ht : t.splice.Tracks m) (hq : m.queue.toList = e :: rest) :
    ∃ left, t.splice.queue = (e, t.next) :: left ∧ left.map Prod.fst = rest ∧
      t.tail = ⟨left, []⟩ := by
  have hqueue := ht.queue.trans hq
  match hs : t.splice.queue with
  | [] =>
    rw [hs] at hqueue
    cases hqueue
  | x :: left =>
    rw [hs, List.map_cons] at hqueue
    obtain ⟨hx, hleft⟩ := List.cons.inj hqueue
    refine ⟨left, ?_, hleft, by rw [tail, hs]; rfl⟩
    rw [next, hs, ← hx]
    rfl

/-- An entry is alive exactly if its governor was discarded a multiple of 2³² times. -/
theorem Tracks.isLive_iff (ht : t.splice.Tracks m) (hq : m.queue.toList = e :: rest) :
    m.isLive e = true ↔ UInt32.size ∣ t.next := by
  obtain ⟨left, hleft, -, -⟩ := ht.next_cons hq
  exact Machine.isLive_iff_dvd (ht.stamps (e, t.next) (by rw [hleft]; exact List.mem_cons_self))

theorem Tracks.without (ht : t.splice.Tracks m) (hq : m.queue.toList = e :: rest) :
    t.tail.Tracks (m.without rest) := by
  obtain ⟨left, hleft, hrest, htail⟩ := ht.next_cons hq
  rw [htail]
  refine ⟨hrest, ht.staged, fun x hx => ht.stamps x ?_⟩
  rw [List.append_nil] at hx
  rw [hleft]
  exact List.mem_append_left _ (List.mem_cons_of_mem _ hx)

theorem Tracks.begin (ht : t.splice.Tracks m) (hq : m.queue.toList = e :: rest) :
    t.tail.Tracks (m.begin e rest) :=
  ⟨(ht.without hq).queue, (ht.without hq).staged, (ht.without hq).stamps⟩

/-- A turn that ends well leaves the machine with what the ledger holds then. -/
theorem Tracks.turn [Audience σ] {mean : α → Frame → Work σ α Unit} {m₁ : Machine σ α}
    (ht : t.splice.Tracks m) (hq : m.queue.toList = e :: rest)
    (hp : Machine.perform mean (m.begin e rest) e = (none, m₁)) :
    (t.tail.after ((mean e.action e.frame).history (m.begin e rest))).splice.Tracks m₁ := by
  obtain ⟨m₂, hx, -, rfl⟩ := Machine.perform_eq_none.mp hp
  have h := tracks_exec (mean e.action e.frame) (ht.begin hq)
  rw [hx] at h
  exact h.splice

theorem taken_one [Audience σ] (t : Ledger α) (mean : α → Frame → Work σ α Unit)
    (hq : m.queue.toList = e :: rest) :
    t.taken (m.history mean 1) = [⟨e, t.next, m.isLive e⟩] := by
  cases hl : m.isLive e with
  | false =>
    rw [Machine.history_of_dead hq hl]
    rfl
  | true =>
    rw [Machine.history_of_live hq hl, taken_turn]
    split <;> rfl

/-- With little fuel a run takes no more off the queue than with enough. -/
theorem mem_taken_of_course [Audience σ] {mean : α → Frame → Work σ α Unit} {m' : Machine σ α}
    {h : History σ α} {ending : Ending} (c : Machine.Course mean m h ending m') (fuel : Nat) :
    ∀ x ∈ t.taken (m.history mean fuel), x ∈ t.taken h := by
  intro x hx
  obtain ⟨more, rfl⟩ := c.history_prefix fuel
  rw [taken_append]
  exact List.mem_append_left _ hx

end Ledger

/-- What is taken off the queue by a run of what `w` queues on an idle machine. -/
def Machine.taken [Audience σ] (mean : α → Frame → Work σ α Unit) (m : Machine σ α)
    (w : Work σ α Unit) (fuel : Nat) : List (Taken α) :=
  Ledger.taken {} (w.history m ++ (w.exec m).2.splice.history mean fuel)

theorem Machine.taken_eq [Audience σ] (mean : α → Frame → Work σ α Unit) (m : Machine σ α)
    (w : Work σ α Unit) (fuel : Nat) :
    m.taken mean w fuel =
      (Ledger.after {} (w.history m)).taken ((w.exec m).2.splice.history mean fuel) := by
  rw [Machine.taken, Ledger.taken_append, Ledger.taken_history]
  rfl

end Trampoline
