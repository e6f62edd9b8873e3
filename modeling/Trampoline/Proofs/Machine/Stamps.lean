import Trampoline.Proofs.Machine.OneByOne

/-! What a stamp remembers.

An entry is made at one moment, queued at that moment or a later one, and taken off the queue later
still. All that is left of the moment it was made is its stamp. `Told` says what each mark of a
history means for the governors, `Unbroken` that a history tells everything that happens to them; the
history of work is unbroken, and so is that of a run. So an entry that is taken off the queue is
performed exactly if its governor was discarded a multiple of 2³² times since the entry was made,
wherever in the run that was (`Unbroken.performed_iff`). -/
namespace Trampoline

variable {σ α β : Type}

/-- The entry that is taken off the queue, and whether it is performed. -/
def Mark.taken? : Mark α → Option (Entry α × Bool)
  | .begun e => some (e, true)
  | .dropped e => some (e, false)
  | _ => none

namespace Machine

variable {m m' : Machine σ α} {g : GovernorId}

theorem generation_of_governors (h : m'.governors = m.governors) (g : GovernorId) :
    m'.generation g = m.generation g := by
  rw [generation, generation, h]

theorem isLive_of_governors (h : m'.governors = m.governors) (e : Entry α) :
    m'.isLive e = m.isLive e := by
  rw [isLive, isLive, generation_of_governors h]

/-- A generation comes back to a stamp exactly if it was moved on a multiple of 2³² times. -/
theorem isLive_iff_dvd {e : Entry α} {n : Nat}
    (h : m.generation e.frame.governor = e.stamp + .ofNat n) :
    m.isLive e = true ↔ UInt32.size ∣ n := by
  rw [isLive, beq_iff_eq, h, ← ofNat_eq_zero_iff]
  constructor
  · intro h
    exact (UInt32.add_right_inj _).mp (h.trans (UInt32.add_zero _).symm)
  · intro h
    rw [h, UInt32.add_zero]

end Machine

namespace History

/-! ### Mark by mark -/

/-- What a mark says of the governors, and of the entry it takes off the queue. -/
def Told (m : Machine σ α) : Mark α × Machine σ α → Prop
  | (.begun e, m') => m.isLive e = true ∧ m'.governors = m.governors
  | (.dropped e, m') => m.isLive e = false ∧ m'.governors = m.governors
  | (.discarded g, m') => m'.governors = (m.discard g).governors
  | (.governed depth, m') => m'.governors = (m.govern depth).2.governors
  | (.aborted _, _) => True
  | (_, m') => m'.governors = m.governors

/-- Each mark follows on the machine that the one before it leaves, and nothing follows an abort. -/
def Unbroken : Machine σ α → History σ α → Prop
  | _, [] => True
  | m, x :: h => Told m x ∧ (∀ fault, x.1 = .aborted fault → h = []) ∧ Unbroken x.2 h

/-- The machine that a history leaves. -/
def now (m : Machine σ α) (h : History σ α) : Machine σ α := h.foldl (fun _ x => x.2) m

variable {m m' : Machine σ α} {g : GovernorId} {x : Mark α × Machine σ α} {h : History σ α}

theorem Told.of_governors (hx : Told m x) (hm : m'.governors = m.governors) : Told m' x := by
  obtain ⟨mark, m''⟩ := x
  cases mark with
  | begun e => exact ⟨(Machine.isLive_of_governors hm e).trans hx.1, hx.2.trans hm.symm⟩
  | dropped e => exact ⟨(Machine.isLive_of_governors hm e).trans hx.1, hx.2.trans hm.symm⟩
  | charged units => exact hx.trans hm.symm
  | queued e => exact hx.trans hm.symm
  | discarded g => exact hx.trans (congrArg (·.modify g Governor.discard) hm.symm)
  | governed depth => exact hx.trans (congrArg (·.push ⟨depth, 0⟩) hm.symm)
  | changed => exact hx.trans hm.symm
  | aborted fault => trivial

theorem Unbroken.of_governors (hh : Unbroken m h) (hm : m'.governors = m.governors) :
    Unbroken m' h := by
  cases h with
  | nil => trivial
  | cons x h => exact ⟨hh.1.of_governors hm, hh.2⟩

/-- A mark moves a governor there is on by as many generations as it discards it. -/
theorem Told.generation (hx : Told m x) (hgoes : ∀ fault, x.1 ≠ .aborted fault)
    (hg : g < m.governors.size) :
    g < x.2.governors.size ∧ x.2.generation g = m.generation g + .ofNat (discards g [x]) := by
  obtain ⟨mark, m'⟩ := x
  have hsame (hm : m'.governors = m.governors) :
      g < m'.governors.size ∧ m'.generation g = m.generation g + .ofNat 0 :=
    ⟨hm ▸ hg, (Machine.generation_of_governors hm g).trans (UInt32.add_zero _).symm⟩
  cases mark with
  | begun e => exact hsame hx.2
  | dropped e => exact hsame hx.2
  | charged units => exact hsame hx
  | queued e => exact hsame hx
  | discarded g' =>
    have hmoved : m'.generation g = (m.discard g').generation g :=
      Machine.generation_of_governors hx g
    refine ⟨?_, ?_⟩
    · rw [hx, Machine.discard, Array.size_modify]
      exact hg
    · rw [hmoved, discards_cons_discarded]
      by_cases h : g = g'
      · subst h
        rw [Machine.generation_discard m hg, if_pos rfl]
        rfl
      · rw [Machine.generation_discard_of_ne m h, if_neg h]
        exact (UInt32.add_zero _).symm
  | governed depth =>
    refine ⟨?_, ?_⟩
    · rw [hx]
      exact Nat.lt_of_lt_of_le hg (Machine.size_governors_le_push m depth)
    · exact (Machine.generation_of_governors hx g).trans
        ((Machine.generation_govern m depth g).trans (UInt32.add_zero _).symm)
  | changed => exact hsame hx
  | aborted fault => exact absurd rfl (hgoes fault)

/-! ### Moment by moment -/

theorem Unbroken.later {early later : History σ α} (hh : Unbroken m (early ++ later)) :
    Unbroken (now m early) later := by
  induction early generalizing m with
  | nil => exact hh
  | cons x early ih => exact ih hh.2.2

/-- Up to any moment but the last a governor's generation counts its discards. -/
theorem Unbroken.generation {early later : History σ α} (hh : Unbroken m (early ++ x :: later))
    (hg : g < m.governors.size) :
    (now m early).generation g = m.generation g + .ofNat (discards g early) := by
  induction early generalizing m with
  | nil => exact (UInt32.add_zero _).symm
  | cons y early ih =>
    have hgoes : ∀ fault, y.1 ≠ .aborted fault := fun fault hy =>
      List.append_ne_nil_of_right_ne_nil early (List.cons_ne_nil x later) (hh.2.1 fault hy)
    obtain ⟨hsize, hone⟩ := hh.1.generation hgoes hg
    have hcons : discards g (y :: early) = discards g [y] + discards g early :=
      discards_append g [y] early
    rw [hcons, UInt32.ofNat_add, ← UInt32.add_assoc, ← hone]
    exact ih hh.2.2 hsize

/-- An entry that was made at some moment and is taken off at a later one is performed exactly if
its governor was discarded a multiple of 2³² times in between. -/
theorem Unbroken.performed_iff {early late after : History σ α} {e : Entry α} {performed : Bool}
    (hh : Unbroken m (early ++ late ++ x :: after)) (hx : x.1.taken? = some (e, performed))
    (hg : e.frame.governor < (now m early).governors.size)
    (hstamp : e.stamp = (now m early).generation e.frame.governor) :
    performed = true ↔ UInt32.size ∣ late.discards e.frame.governor := by
  rw [List.append_assoc] at hh
  have hpast := hh.later.generation hg
  rw [← hstamp] at hpast
  rw [← Machine.isLive_iff_dvd hpast]
  have htold := hh.later.later.1
  obtain ⟨mark, m'⟩ := x
  cases mark with
  | begun e' =>
    cases hx
    rw [htold.1]
  | dropped e' =>
    cases hx
    rw [htold.1]
  | _ => cases hx

end History

/-! ### Work and runs -/

/-- Work tells everything it does to the governors. -/
theorem Work.unbroken_history (w : Work σ α β) (m : Machine σ α) {h : History σ α}
    (hh : History.Unbroken (w.exec m).2 h) : History.Unbroken m (w.history m ++ h) := by
  induction w generalizing m with
  | done b => exact hh
  | abort fault => exact hh
  | charge units next ih => exact ⟨rfl, nofun, ih _ _ hh⟩
  | stage e next ih => exact ⟨rfl, nofun, ih _ _ hh⟩
  | discard g next ih => exact ⟨rfl, nofun, ih _ _ hh⟩
  | govern d next ih => exact ⟨rfl, nofun, ih _ _ hh⟩
  | update change next ih => exact ⟨rfl, nofun, ih _ _ hh⟩
  | observe next ih => exact ih _ _ hh
  | generation g next ih => exact ih _ _ hh
  | depth next ih => exact ih _ _ hh
  | cost next ih => exact ih _ _ hh
  | forkLimit next ih => exact ih _ _ hh
  | pending next ih => exact ih _ _ hh

/-- So does a run, turn by turn; an abort ends it. -/
theorem Machine.unbroken_history [Audience σ] (mean : α → Frame → Work σ α Unit) (fuel : Nat)
    (m : Machine σ α) : History.Unbroken m (m.history mean fuel) := by
  induction fuel generalizing m with
  | zero => trivial
  | succ fuel ih =>
    cases hq : m.queue.toList with
    | nil =>
      rw [history_of_nil hq]
      trivial
    | cons e rest =>
      cases hl : m.isLive e with
      | false =>
        rw [history_of_dead hq hl]
        exact ⟨⟨hl, rfl⟩, nofun, ih _⟩
      | true =>
        rw [history_of_live hq hl]
        refine ⟨⟨hl, rfl⟩, nofun, Work.unbroken_history _ _ ?_⟩
        match hp : perform mean (m.begin e rest) e with
        | (some fault, m₁) => exact ⟨trivial, fun _ _ => rfl, trivial⟩
        | (none, m₁) =>
          obtain ⟨m₂, hx, -, rfl⟩ := perform_eq_none.mp hp
          rw [hx]
          exact (ih m₂.splice).of_governors rfl

end Trampoline
