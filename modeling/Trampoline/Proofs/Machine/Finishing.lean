import Trampoline.Proofs.Machine.History

/-! What an entry leads to.

What an entry queues goes in front of everything that waits, so the loop comes back to what waited
behind the entry once the entry is done with all it leads to. `Finishes mean es m m'` says that of
entries in front of the queue, by the tree of what they queue: a dead entry is dropped, and a live
one performed and then, one after another, what it queued. The loop does just that
(`Finishes.drain`), and it does it for whatever waits in front, unless the run is aborted
(`Course.finishes`). -/
namespace Trampoline

namespace Machine

variable {σ α β : Type} {m m' m₁ m'' : Machine σ α} {g : GovernorId}

/-! ### Generations that are left alone -/

theorem generation_exec_of_spared (w : Work σ α β) (m : Machine σ α)
    (h : (w.history m).discards g = 0) : (w.exec m).2.generation g = m.generation g := by
  induction w generalizing m with
  | done b => rfl
  | abort fault => rfl
  | charge units next ih => exact ih _ (m.charge units).2 h
  | stage e next ih => exact ih _ (m.stage e) h
  | discard g' next ih =>
    rw [Work.history, History.discards_cons_discarded, Nat.add_eq_zero_iff] at h
    have hne : g ≠ g' := by
      intro heq
      rw [if_pos heq] at h
      exact absurd h.1 Nat.one_ne_zero
    exact (ih () (m.discard g') h.2).trans (generation_discard_of_ne m hne)
  | govern d next ih => exact (ih m.governors.size (m.govern d).2 h).trans (generation_govern m d g)
  | update change next ih => exact ih _ { m with world := change m.world } h
  | observe next ih => exact ih _ m h
  | generation g' next ih => exact ih _ m h
  | depth next ih => exact ih _ m h
  | cost next ih => exact ih _ m h
  | forkLimit next ih => exact ih _ m h
  | pending next ih => exact ih _ m h

variable [Audience σ] {mean : α → Frame → Work σ α Unit} {e : Entry α} {es es' rest : List (Entry α)}
  {h : History σ α} {ending : Ending}

/-- Performing an entry leaves the other governors alone that its work does, even if it aborts the
run. -/
theorem generation_perform_of_spared (hne : g ≠ e.frame.governor)
    (h : ((mean e.action e.frame).history m).discards g = 0) :
    (perform mean m e).2.generation g = m.generation g := by
  have hexec := generation_exec_of_spared (mean e.action e.frame) m h
  have habort (m₁ : Machine σ α) : (m₁.abort e.frame).generation g = m₁.generation g :=
    generation_discard_of_ne _ hne
  match hx : (mean e.action e.frame).exec m with
  | (.error fault, m₁) =>
    rw [hx] at hexec
    rw [perform_of_error hx, habort, hexec]
  | (.ok (), m₁) =>
    rw [hx] at hexec
    rw [perform_of_ok hx]
    split
    · rw [habort, hexec]
    · exact hexec

/-- An entry that does not abort the run leaves alone what its work does. -/
theorem generation_of_perform (hp : perform mean (m.begin e rest) e = (none, m₁))
    (h : ((mean e.action e.frame).history (m.begin e rest)).discards g = 0) :
    m₁.generation g = m.generation g := by
  obtain ⟨m₂, hx, -, rfl⟩ := perform_eq_none.mp hp
  have hexec := generation_exec_of_spared (mean e.action e.frame) (m.begin e rest) h
  rw [hx] at hexec
  exact hexec

/-- It puts what it queued in front. -/
theorem exists_front (hp : perform mean (m.begin e rest) e = (none, m₁)) :
    ∃ new, m₁.queue.toList = new ++ rest := by
  obtain ⟨m₂, hx, -, rfl⟩ := perform_eq_none.mp hp
  have hqueue := Work.queue_exec (mean e.action e.frame) (m.begin e rest)
  rw [hx] at hqueue
  refine ⟨m₂.staged.toList.reverse, ?_⟩
  rw [splice, Backlog.toList_splice, show m₂.queue = .ofList rest from hqueue]
  rfl

/-! ### The loop, turn by turn -/

/-- What every turn keeps is kept by the loop. -/
theorem drain_keeps {P : Machine σ α → Prop}
    (hdrop : ∀ m e rest, P m → m.queue.toList = e :: rest → P (m.without rest))
    (hperform : ∀ m e rest, P m → m.queue.toList = e :: rest →
      P (perform mean (m.begin e rest) e).2) (fuel : Nat) (hm : P m) :
    P (drain mean fuel m).2 := by
  induction fuel generalizing m with
  | zero =>
    cases hq : m.queue.toList with
    | nil =>
      rw [drain_of_nil hq]
      exact hm
    | cons e rest =>
      rw [drain_zero hq]
      exact hm
  | succ fuel ih =>
    cases hq : m.queue.toList with
    | nil =>
      rw [drain_of_nil hq]
      exact hm
    | cons e rest =>
      cases hl : m.isLive e with
      | false =>
        rw [drain_of_dead hq hl]
        exact ih (hdrop m e rest hm hq)
      | true =>
        have hnext := hperform m e rest hm hq
        rw [drain_of_live hq hl]
        match hp : perform mean (m.begin e rest) e with
        | (some fault, m₁) =>
          rw [hp] at hnext
          exact hnext
        | (none, m₁) =>
          rw [hp] at hnext
          exact ih hnext

/-- Between two turns nothing is staged. -/
theorem staged_drain (fuel : Nat) (hs : m.staged = .empty) :
    (drain mean fuel m).2.staged = .empty :=
  drain_keeps (P := fun m => m.staged = .empty) (fun _ _ _ hs _ => hs)
    (fun _ _ _ _ _ => staged_perform rfl) fuel hs

theorem snd_drain_zero (m : Machine σ α) : (drain mean 0 m).2 = m := by
  cases hq : m.queue.toList with
  | nil => rw [drain_of_nil hq]
  | cons e rest => rw [drain_zero hq]

/-- As long as something waits the loop can be stopped and gone on with. -/
theorem drain_add {fuel : Nat} (hwaits : (drain mean fuel m).2.queue.toList ≠ []) (more : Nat) :
    drain mean (fuel + more) m = drain mean more (drain mean fuel m).2 := by
  induction fuel generalizing m with
  | zero =>
    cases hq : m.queue.toList with
    | nil => rw [drain_of_nil hq, drain_of_nil hq, drain_of_nil hq]
    | cons e rest => rw [drain_zero hq, Nat.zero_add]
  | succ fuel ih =>
    rw [Nat.succ_add]
    cases hq : m.queue.toList with
    | nil => rw [drain_of_nil hq, drain_of_nil hq, drain_of_nil hq]
    | cons e rest =>
      cases hl : m.isLive e with
      | false =>
        rw [drain_of_dead hq hl] at hwaits ⊢
        rw [drain_of_dead hq hl]
        exact ih hwaits
      | true =>
        rw [drain_of_live hq hl] at hwaits ⊢
        rw [drain_of_live hq hl]
        match hp : perform mean (m.begin e rest) e with
        | (some fault, m₁) =>
          rw [hp] at hwaits
          exact absurd (toList_of_pending (perform_fault hp).1).1 hwaits
        | (none, m₁) =>
          rw [hp] at hwaits
          exact ih hwaits

/-- The machine after one turn. -/
theorem snd_drain_one (hq : m.queue.toList = e :: rest) :
    (drain mean 1 m).2 =
      if m.isLive e then (perform mean (m.begin e rest) e).2 else m.without rest := by
  cases hl : m.isLive e with
  | false =>
    rw [drain_of_dead hq hl, snd_drain_zero]
    rfl
  | true =>
    rw [drain_of_live hq hl, if_pos rfl]
    match hp : perform mean (m.begin e rest) e with
    | (some fault, m₁) => rfl
    | (none, m₁) => exact snd_drain_zero m₁

/-! ### Doing entries with all they lead to -/

/-- The entries in front of the queue are done, each with everything it leads to before the next, and
none of that aborts the run. -/
inductive Finishes (mean : α → Frame → Work σ α Unit) :
    List (Entry α) → Machine σ α → Machine σ α → Prop where
  | none (m : Machine σ α) : Finishes mean [] m m
  | dropped {m m' : Machine σ α} {e : Entry α} {es rest : List (Entry α)}
      (hq : m.queue.toList = e :: rest) (hl : m.isLive e = false)
      (next : Finishes mean es (m.without rest) m') : Finishes mean (e :: es) m m'
  | performed {m m₁ m₂ m' : Machine σ α} {e : Entry α} {new es rest : List (Entry α)}
      (hq : m.queue.toList = e :: rest) (hl : m.isLive e = true)
      (hp : perform mean (m.begin e rest) e = (.none, m₁)) (hnew : m₁.queue.toList = new ++ rest)
      (inner : Finishes mean new m₁ m₂) (next : Finishes mean es m₂ m') :
    Finishes mean (e :: es) m m'

/-- The loop comes to what waits behind them, on the machine they leave. -/
theorem Finishes.drain (hf : Finishes mean es m m') (hq : m.queue.toList = es ++ rest) :
    m'.queue.toList = rest ∧
      ∃ turns, ∀ fuel, Machine.drain mean (turns + fuel) m = Machine.drain mean fuel m' := by
  induction hf generalizing rest with
  | none m => exact ⟨hq, 0, fun fuel => by rw [Nat.zero_add]⟩
  | @dropped m m' e es rest' hq' hl next ih =>
    cases (List.cons.inj (hq'.symm.trans hq)).2
    obtain ⟨hrest, turns, hdrain⟩ := ih rfl
    refine ⟨hrest, turns + 1, fun fuel => ?_⟩
    rw [Nat.add_right_comm, drain_of_dead hq' hl, hdrain]
  | @performed m m₁ m₂ m' e new es rest' hq' hl hp hnew inner next ihinner ihnext =>
    cases (List.cons.inj (hq'.symm.trans hq)).2
    obtain ⟨hbehind, turns₁, hdrain₁⟩ := ihinner hnew
    obtain ⟨hrest, turns₂, hdrain₂⟩ := ihnext hbehind
    refine ⟨hrest, turns₁ + turns₂ + 1, fun fuel => ?_⟩
    rw [Nat.add_right_comm, drain_of_live hq' hl, hp, Nat.add_assoc]
    exact (hdrain₁ _).trans (hdrain₂ fuel)

theorem Finishes.split (hf : Finishes mean (es ++ es') m m') :
    ∃ m₁, Finishes mean es m m₁ ∧ Finishes mean es' m₁ m' := by
  induction es generalizing m with
  | nil => exact ⟨m, .none m, hf⟩
  | cons e es ih =>
    cases hf with
    | dropped hq hl next =>
      obtain ⟨m₁, hfront, hbehind⟩ := ih next
      exact ⟨m₁, .dropped hq hl hfront, hbehind⟩
    | performed hq hl hp hnew inner next =>
      obtain ⟨m₁, hfront, hbehind⟩ := ih next
      exact ⟨m₁, .performed hq hl hp hnew inner hfront, hbehind⟩

/-- A run does whatever waits in front with all it leads to, unless it is aborted. -/
theorem Course.finishes (c : Course mean m h ending m'') (hq : m.queue.toList = es ++ rest) :
    (∃ m', Finishes mean es m m') ∨ ∃ fault, ending = .aborted fault := by
  induction c generalizing es rest with
  | @finished m hq' =>
    cases es with
    | nil => exact .inl ⟨m, .none m⟩
    | cons e es => cases hq'.symm.trans hq
  | @dropped m m'' e behind h ending hq' hl next ih =>
    cases es with
    | nil => exact .inl ⟨m, .none m⟩
    | cons e' es =>
      obtain ⟨rfl, rfl⟩ := List.cons.inj (hq'.symm.trans hq)
      have hbehind : (m.without (es ++ rest)).queue.toList = es ++ rest := rfl
      refine (ih hbehind).imp_left ?_
      rintro ⟨m', hf⟩
      exact ⟨m', .dropped hq' hl hf⟩
  | @performed m m₁ m'' e behind h ending hq' hl hp next ih =>
    cases es with
    | nil => exact .inl ⟨m, .none m⟩
    | cons e' es =>
      obtain ⟨rfl, rfl⟩ := List.cons.inj (hq'.symm.trans hq)
      obtain ⟨new, hnew⟩ := exists_front hp
      have hboth : m₁.queue.toList = (new ++ es) ++ rest := by
        rw [hnew, List.append_assoc]
        rfl
      refine (ih hboth).imp_left ?_
      rintro ⟨m', hf⟩
      obtain ⟨m₂, hinner, hnext⟩ := hf.split
      exact ⟨m', .performed hq' hl hp hnew hinner hnext⟩
  | failed hq' hl hp => exact .inr ⟨_, rfl⟩

end Machine

end Trampoline
