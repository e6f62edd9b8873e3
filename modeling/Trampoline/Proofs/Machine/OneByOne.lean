import Trampoline.Proofs.Machine.Sequence

/-! Entries of one frame are run one by one.

With entries behind its queue a machine first runs to its end without them, and comes
to them only if it finished (`course_followedBy`). So entries that wait one behind the
other are run one after the other, each alone and each to the end of everything it
leads to. Those of one frame go on like that for as long as nothing discards the frame:
`InTurn` says so item by item, and `course_inTurn` that it is what the loop does.

Whether a frame was discarded is seen by its governor's generation, which counts the
discards up to a multiple of its size (`Course.generation_eq`). -/
namespace Trampoline

variable {σ α β : Type}

namespace Machine

variable {m m' : Machine σ α} {g : GovernorId}

/-! ### Generations count discards -/

theorem size_governors_le_push (m : Machine σ α) (depth : Nat) :
    m.governors.size ≤ (m.govern depth).2.governors.size := by
  simp only [govern, Array.size_push]
  exact Nat.le_succ _

/-- Work takes a governor there is on by as many generations as it discards it. -/
theorem generation_exec (w : Work σ α β) (m : Machine σ α) (hg : g < m.governors.size) :
    g < (w.exec m).2.governors.size ∧
      (w.exec m).2.generation g = m.generation g + .ofNat ((w.history m).discards g) := by
  induction w generalizing m with
  | done b => exact ⟨hg, (UInt32.add_zero _).symm⟩
  | abort fault => exact ⟨hg, (UInt32.add_zero _).symm⟩
  | charge units next ih => exact ih _ (m.charge units).2 hg
  | stage e next ih => exact ih _ (m.stage e) hg
  | discard g' next ih =>
    have hsize : g < (m.discard g').governors.size := by
      rw [discard, Array.size_modify]
      exact hg
    obtain ⟨hlast, hgeneration⟩ := ih () (m.discard g') hsize
    refine ⟨hlast, ?_⟩
    rw [Work.exec, hgeneration, Work.history, History.discards_cons_discarded]
    by_cases h : g = g'
    · subst h
      rw [generation_discard m hg, if_pos rfl, UInt32.ofNat_add, UInt32.add_assoc]
      rfl
    · rw [generation_discard_of_ne m h, if_neg h, Nat.zero_add]
  | govern d next ih =>
    have h := ih (m.govern d).1 (m.govern d).2
      (Nat.lt_of_lt_of_le hg (size_governors_le_push m d))
    rw [generation_govern] at h
    exact h
  | update change next ih => exact ih _ { m with world := change m.world } hg
  | observe next ih => exact ih _ m hg
  | generation g' next ih => exact ih _ m hg
  | depth next ih => exact ih _ m hg
  | cost next ih => exact ih _ m hg
  | forkLimit next ih => exact ih _ m hg
  | pending next ih => exact ih _ m hg

variable [Audience σ] {mean : α → Frame → Work σ α Unit} {m₁ : Machine σ α} {e : Entry α}
  {rest q : List (Entry α)} {ending : Ending} {h : History σ α}

theorem generation_turn (hg : g < m.governors.size)
    (hp : perform mean (m.begin e rest) e = (none, m₁)) :
    g < m₁.governors.size ∧
      m₁.generation g = m.generation g + .ofNat ((m.turn mean e rest).discards g) := by
  obtain ⟨m₂, hx, -, rfl⟩ := perform_eq_none.mp hp
  have h := generation_exec (mean e.action e.frame) (m.begin e rest) hg
  rw [hx] at h
  exact h

/-- So does a run that finished. -/
theorem Course.generation_eq (c : Course mean m h ending m') {cost deepest : Nat}
    (hends : ending = .finished cost deepest) (hg : g < m.governors.size) :
    g < m'.governors.size ∧ m'.generation g = m.generation g + .ofNat (h.discards g) := by
  induction c with
  | finished hq => exact ⟨hg, (UInt32.add_zero _).symm⟩
  | dropped hq hl next ih => exact ih hends hg
  | performed hq hl hp next ih =>
    obtain ⟨hsize, hturn⟩ := generation_turn hg hp
    obtain ⟨hlast, hnext⟩ := ih hends hsize
    refine ⟨hlast, ?_⟩
    rw [hnext, hturn, History.discards_append, UInt32.ofNat_add, UInt32.add_assoc]
  | failed hq hl hp => cases hends

theorem ofNat_eq_zero_iff (n : Nat) : UInt32.ofNat n = 0 ↔ UInt32.size ∣ n := by
  rw [← UInt32.toNat_inj, UInt32.toNat_ofNat', UInt32.toNat_zero, Nat.dvd_iff_mod_eq_zero]

/-- After a run that finished an entry is as live as before exactly if the run discarded its
governor a multiple of 2³² times. -/
theorem Course.generation_eq_iff (c : Course mean m h ending m') {cost deepest : Nat}
    (hends : ending = .finished cost deepest) (hg : g < m.governors.size) :
    m'.generation g = m.generation g ↔ UInt32.size ∣ h.discards g := by
  rw [(c.generation_eq hends hg).2, ← ofNat_eq_zero_iff]
  constructor
  · intro h
    exact (UInt32.add_right_inj _).mp (h.trans (UInt32.add_zero _).symm)
  · intro h
    rw [h, UInt32.add_zero]

/-! ### One run after another -/

/-- What comes after a run, if it finished, told by the machine it leaves, the entries performed,
the ending and the last machine. -/
abbrev Rest (σ α : Type) := Machine σ α → List (Entry α) → Ending → Machine σ α → Prop

/-- A machine runs to its end. If it finished, `next` follows, or `otherwise` if the governor was
discarded, a multiple of 2³² times apart. -/
def AndThen (mean : α → Frame → Work σ α Unit) (g : GovernorId) (m : Machine σ α)
    (next otherwise : Rest σ α) (ran : List (Entry α)) (ending : Ending) (m' : Machine σ α) : Prop :=
  ∃ h₁ ending₁ m₁, Course mean m h₁ ending₁ m₁ ∧
    match ending₁ with
    | .finished .. =>
      ∃ ran₂, ran = h₁.performed ++ ran₂ ∧
        if UInt32.size ∣ h₁.discards g then next m₁ ran₂ ending m' else otherwise m₁ ran₂ ending m'
    | _ => ending = ending₁ ∧ m' = m₁ ∧ ran = h₁.performed

/-- The entries of `q` are run. -/
def Running (mean : α → Frame → Work σ α Unit) (q : List (Entry α)) : Rest σ α :=
  fun m ran ending m' => ∃ h, Course mean (m.followedBy q) h ending m' ∧ h.performed = ran

/-- What waits behind is run on the machine that the run without it leaves, and not at all if that
run failed. -/
theorem course_followedBy (hb : ∀ a frame, (mean a frame).Blind) (g : GovernorId)
    (hr : (m.followedBy q).Roomy mean) (ran : List (Entry α)) :
    Running mean q m ran ending m' ↔
      AndThen mean g m (Running mean q) (Running mean q) ran ending m' := by
  constructor
  · rintro ⟨h, c, rfl⟩
    obtain ⟨h₁, ending₁, m₁, c₁, hrest⟩ := c.split hb m rfl hr
    refine ⟨h₁, ending₁, m₁, c₁, ?_⟩
    cases ending₁ with
    | finished cost deepest =>
      obtain ⟨h₂, c₂, hh⟩ := hrest
      refine ⟨h₂.performed, hh, ?_⟩
      rw [ite_self]
      exact ⟨h₂, c₂, rfl⟩
    | aborted fault => exact hrest
    | unfinished => exact absurd rfl c₁.ending_ne
  · rintro ⟨h₁, ending₁, m₁, c₁, hrest⟩
    have hlift := c₁.lift hb hr
    cases ending₁ with
    | finished cost deepest =>
      obtain ⟨ran₂, rfl, hrest⟩ := hrest
      rw [ite_self] at hrest
      obtain ⟨h₂, c₂, rfl⟩ := hrest
      exact hlift h₂ ending m' c₂
    | aborted fault =>
      obtain ⟨rfl, rfl, rfl⟩ := hrest
      exact hlift
    | unfinished => exact absurd rfl c₁.ending_ne

/-- What follows a run of a machine that fits fits. -/
theorem Course.roomy_after (hb : ∀ a frame, (mean a frame).Blind) (c : Course mean m h ending m')
    {cost deepest : Nat} (hends : ending = .finished cost deepest)
    (hr : (m.followedBy q).Roomy mean) : (m'.followedBy q).Roomy mean := by
  have hcons {m : Machine σ α} {e : Entry α} {rest : List (Entry α)}
      (hq : m.queue.toList = e :: rest) : (m.followedBy q).queue.toList = e :: (rest ++ q) :=
    congrArg (· ++ q) hq
  induction c with
  | finished hq => exact hr
  | dropped hq hl next ih => exact ih hends (hr.dropped (hcons hq) hl)
  | performed hq hl hp next ih =>
    have hlift := perform_followedBy_none hb (hr.turn (hcons hq) hl) hp
    exact ih hends (hr.performed (hcons hq) hl hlift)
  | failed hq hl hp => cases hends

/-- Dead entries in front make no difference. -/
theorem running_dead {dead : List (Entry α)} (hm : m.queue.toList = [])
    (hdead : ∀ e ∈ dead, m.isLive e = false) (ran : List (Entry α)) :
    Running mean (dead ++ q) m ran ending m' ↔ Running mean q m ran ending m' := by
  induction dead with
  | nil => rfl
  | cons e dead ih =>
    obtain ⟨hfirst, hrest⟩ := List.forall_mem_cons.mp hdead
    rw [← ih hrest]
    have hq : (m.followedBy (e :: dead ++ q)).queue.toList = e :: (dead ++ q) := by
      rw [followedBy, hm]
      rfl
    have hwithout : (m.followedBy (e :: dead ++ q)).without (dead ++ q) =
        m.followedBy (dead ++ q) := by
      unfold followedBy
      rw [hm]
      rfl
    constructor
    · rintro ⟨h, c, rfl⟩
      cases c with
      | finished hq' => cases hq'.symm.trans hq
      | dropped hq' hl next =>
        cases hq'.symm.trans hq
        rw [hwithout] at next
        exact ⟨_, next, rfl⟩
      | performed hq' hl hp next =>
        cases hq'.symm.trans hq
        cases hfirst.symm.trans hl
      | failed hq' hl hp =>
        cases hq'.symm.trans hq
        cases hfirst.symm.trans hl
    · rintro ⟨h, c, rfl⟩
      rw [← hwithout] at c
      exact ⟨_, .dropped hq hfirst c, rfl⟩

/-! ### Item by item -/

/-- The items of a frame are run one by one, each alone to the end of all it leads to; if one of
them fails the run ends with it, and once one of them has discarded the frame the others are left
out. Then comes what waits behind. -/
def InTurn (mean : α → Frame → Work σ α Unit) (frame : Frame) (stamp : UInt32)
    (behind : List (Entry α)) : List α → Rest σ α
  | [] => Running mean behind
  | a :: items => fun m =>
    AndThen mean frame.governor (m.followedBy [⟨frame, stamp, a⟩])
      (InTurn mean frame stamp behind items) (Running mean behind)

/-- Items behind a machine come after its run, if they are run like that from the machine it
leaves: either they are all as live as before, or they are all dead. -/
theorem running_andThen (hb : ∀ a frame, (mean a frame).Blind) {frame : Frame} {items : List α}
    (hidle : ∀ m₁ ran₂, m₁.queue.toList = [] → frame.governor < m₁.governors.size →
      (m₁.followedBy (frame.entries (m₁.generation frame.governor) items ++ q)).Roomy mean →
      (Running mean (frame.entries (m₁.generation frame.governor) items ++ q) m₁ ran₂ ending m' ↔
        InTurn mean frame (m₁.generation frame.governor) q items m₁ ran₂ ending m'))
    (hg : frame.governor < m.governors.size)
    (hr : (m.followedBy (frame.entries (m.generation frame.governor) items ++ q)).Roomy mean)
    (ran : List (Entry α)) :
    Running mean (frame.entries (m.generation frame.governor) items ++ q) m ran ending m' ↔
      AndThen mean frame.governor m (InTurn mean frame (m.generation frame.governor) q items)
        (Running mean q) ran ending m' := by
  generalize hstamp : m.generation frame.governor = stamp at hr ⊢
  have hnext {h₁ : History σ α} {cost deepest : Nat} {m₁ : Machine σ α}
      (c : Course mean m h₁ (.finished cost deepest) m₁) (ran₂ : List (Entry α)) :
      Running mean (frame.entries stamp items ++ q) m₁ ran₂ ending m' ↔
        if UInt32.size ∣ h₁.discards frame.governor then
          InTurn mean frame stamp q items m₁ ran₂ ending m'
        else Running mean q m₁ ran₂ ending m' := by
    have hkept : m₁.generation frame.governor = stamp ↔
        UInt32.size ∣ h₁.discards frame.governor := by
      rw [← c.generation_eq_iff rfl hg, ← hstamp]
    by_cases hdiscards : UInt32.size ∣ h₁.discards frame.governor
    · have hgeneration := hkept.mpr hdiscards
      have hroomy := c.roomy_after hb rfl hr
      rw [if_pos hdiscards, ← hgeneration]
      rw [← hgeneration] at hroomy
      exact hidle m₁ ran₂ c.queue_eq (c.generation_eq rfl hg).1 hroomy
    · rw [if_neg hdiscards]
      refine running_dead c.queue_eq (fun e he => ?_) ran₂
      obtain ⟨hframe, he⟩ := Frame.mem_entries he
      rw [isLive, hframe, he, beq_eq_false_iff_ne]
      exact fun hlive => hdiscards (hkept.mp hlive)
  rw [course_followedBy hb frame.governor hr]
  constructor
  · rintro ⟨h₁, ending₁, m₁, c, hrest⟩
    refine ⟨h₁, ending₁, m₁, c, ?_⟩
    cases ending₁ with
    | finished cost deepest =>
      obtain ⟨ran₂, hran, hrest⟩ := hrest
      rw [ite_self] at hrest
      exact ⟨ran₂, hran, (hnext c ran₂).mp hrest⟩
    | aborted fault => exact hrest
    | unfinished => exact hrest
  · rintro ⟨h₁, ending₁, m₁, c, hrest⟩
    refine ⟨h₁, ending₁, m₁, c, ?_⟩
    cases ending₁ with
    | finished cost deepest =>
      obtain ⟨ran₂, hran, hrest⟩ := hrest
      refine ⟨ran₂, hran, ?_⟩
      rw [ite_self]
      exact (hnext c ran₂).mpr hrest
    | aborted fault => exact hrest
    | unfinished => exact hrest

/-- That is what the loop does with items that wait one behind the other. -/
theorem running_inTurn (hb : ∀ a frame, (mean a frame).Blind) {frame : Frame} (items : List α)
    (hm : m.queue.toList = []) (hg : frame.governor < m.governors.size)
    (hr : (m.followedBy (frame.entries (m.generation frame.governor) items ++ q)).Roomy mean)
    (ran : List (Entry α)) :
    Running mean (frame.entries (m.generation frame.governor) items ++ q) m ran ending m' ↔
      InTurn mean frame (m.generation frame.governor) q items m ran ending m' := by
  induction items generalizing m ran with
  | nil => rfl
  | cons a items ih =>
    -- The first item is run alone; the others wait behind it.
    have hcons : m.followedBy (frame.entries (m.generation frame.governor) (a :: items) ++ q) =
        (m.followedBy [⟨frame, m.generation frame.governor, a⟩]).followedBy
          (frame.entries (m.generation frame.governor) items ++ q) :=
      followedBy_append m [⟨frame, m.generation frame.governor, a⟩] _
    have hrunning : Running mean (frame.entries (m.generation frame.governor) (a :: items) ++ q) m
        ran ending m' ↔ Running mean (frame.entries (m.generation frame.governor) items ++ q)
          (m.followedBy [⟨frame, m.generation frame.governor, a⟩]) ran ending m' := by
      unfold Running
      rw [hcons]
    rw [hcons] at hr
    rw [hrunning]
    exact running_andThen (m := m.followedBy [⟨frame, m.generation frame.governor, a⟩]) hb
      (fun m₁ ran₂ hm₁ hg₁ hr₁ => ih hm₁ hg₁ hr₁ ran₂) hg hr ran

/-- Items that wait behind other entries are run item by item once these are done. -/
theorem course_inTurn (hb : ∀ a frame, (mean a frame).Blind) {frame : Frame} (items : List α)
    (hg : frame.governor < m.governors.size)
    (hr : (m.followedBy (frame.entries (m.generation frame.governor) items ++ q)).Roomy mean)
    (ran : List (Entry α)) :
    Running mean (frame.entries (m.generation frame.governor) items ++ q) m ran ending m' ↔
      AndThen mean frame.governor m (InTurn mean frame (m.generation frame.governor) q items)
        (Running mean q) ran ending m' :=
  running_andThen hb (fun _ ran₂ hm₁ hg₁ hr₁ => running_inTurn hb items hm₁ hg₁ hr₁ ran₂) hg hr ran

end Machine

end Trampoline
