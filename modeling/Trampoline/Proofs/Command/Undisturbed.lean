import Trampoline.Proofs.Command.Integrity
import Trampoline.Proofs.Command.Interpreter
import Trampoline.Proofs.Machine.Finishing

/-! What a call leaves alone.

An action discards the work of its own frame's governor and of no other, and what it queues is in
that frame, shares its governor or has a new one. So whatever a call in a frame of its own leads to,
however deeply nested, is under governors that were not there before (`Finishes.spares`): the entries
that waited behind the call are all still there when it is done, and each is as live as it was
(`undisturbed`). For that their own governors must have been there, and they are on every machine
that submissions lead to (`Reached.housed`). -/
namespace Trampoline.Command
open Machine (Finishes)

variable {m m' m₁ m₂ : Rig} {e : Entry (Task (Action standard))}
  {es rest : List (Entry (Task (Action standard)))} {g : GovernorId}

/-! ### One turn -/

/-- **One step moves one governor on at most**, that of the entry's own frame, whether or not it ends
the run. -/
theorem generation_turn_of_ne (m : Rig) (e : Entry (Task (Action standard)))
    (rest : List (Entry (Task (Action standard)))) (hne : g ≠ e.frame.governor) :
    (Machine.perform taskMeaning (m.begin e rest) e).2.generation g = m.generation g := by
  refine Machine.generation_perform_of_spared (m := m.begin e rest) hne ?_
  change (m.turn taskMeaning e rest).discards g = 0
  cases he : e.action with
  | act a => rw [discards_turn m rest he, if_neg hne]
  | fan items => exact discards_fan he g

/-- The new entries of a turn are in one frame: the entry's own governor is theirs, or a new one. -/
structure Spawned (m : Rig) (e : Entry (Task (Action standard)))
    (rest : List (Entry (Task (Action standard)))) (m₁ : Rig) (frame : Frame) : Prop where
  queue : ∃ stamp tasks, m₁.queue.toList = frame.entries stamp tasks ++ rest
  size : m.governors.size ≤ m₁.governors.size
  governor : frame.governor = e.frame.governor ∨ frame.governor = m.governors.size
  there : e.frame.governor < m.governors.size → frame.governor < m₁.governors.size

theorem Spawned.frame_of_mem {frame : Frame} {new : List (Entry (Task (Action standard)))}
    (h : Spawned m e rest m₁ frame) (hnew : m₁.queue.toList = new ++ rest) {e' : Entry _}
    (he' : e' ∈ new) : e'.frame = frame := by
  obtain ⟨stamp, tasks, hqueue⟩ := h.queue
  rw [List.append_cancel_right (hnew.symm.trans hqueue)] at he'
  exact (Frame.mem_entries he').1

theorem spawned_act {a : Action standard} (ha : e.action = .act a) (hs : m.staged = .empty)
    (hp : Machine.perform taskMeaning (m.begin e rest) e = (none, m₁)) :
    Spawned m e rest m₁ ((upshot m.limits (levelOf e.frame) a (standingOf m)).scope.frame e.frame
      m.governors.size) := by
  obtain ⟨hfault, hm₁⟩ := perform_act ha hp
  have hsettle := settle_of_no_fault e.frame (m.begin e rest) hfault
  have hgovernors : m₁.governors = ((upshot m.limits (levelOf e.frame) a
      (standingOf m)).ready e.frame (m.begin e rest)).governors := by
    rw [hm₁, hsettle]
    exact Machine.governors_pushAll ..
  refine ⟨?_, ?_, governor_frame .., fun hg => ?_⟩
  · rw [hm₁]
    exact ⟨_, _, queue_settle e.frame (m := m.begin e rest) hfault hs⟩
  · rw [hgovernors]
    exact size_governors_ready _ e.frame (m.begin e rest)
  · rw [hgovernors]
    exact governor_frame_lt (m := m.begin e rest) hg

theorem spawned_fan {items : List (Action standard)} (he : e.action = .fan items)
    (hs : m.staged = .empty) (hp : Machine.perform taskMeaning (m.begin e rest) e = (none, m₁)) :
    Spawned m e rest m₁ e.frame := by
  have hm₁ := perform_fan he hp
  have hgovernors : m₁.governors = m.governors := by
    rw [hm₁]
    exact Machine.governors_pushAll (m.begin e rest) e.frame (Task.unfolded items)
  refine ⟨?_, Nat.le_of_eq (congrArg Array.size hgovernors.symm), .inl rfl, fun hg => ?_⟩
  · rw [hm₁]
    exact ⟨_, _, Machine.queue_splice_pushAll (m.begin e rest) e.frame (Task.unfolded items) hs⟩
  · rw [hgovernors]
    exact hg

theorem exists_spawned (hs : m.staged = .empty)
    (hp : Machine.perform taskMeaning (m.begin e rest) e = (none, m₁)) :
    ∃ frame, Spawned m e rest m₁ frame := by
  cases he : e.action with
  | act a => exact ⟨_, spawned_act he hs hp⟩
  | fan items => exact ⟨_, spawned_fan he hs hp⟩

/-! ### What a call leads to -/

/-- Calls in a frame of their own: of a function, if not to return what it returns, and of a function
that is triggered. -/
inductive Separate : Task (Action standard) → Prop where
  | call (body : Body standard) (returns : Callback) (source : Source) :
    Separate (.act (.call body returns false source))
  | isolated (body : Body standard) (source : Source) : Separate (.act (.isolated body source))

/-- Entries under governors that are not among the first `n`, with all they lead to, leave these
alone. -/
theorem Finishes.spares {n : Nat} (hf : Finishes taskMeaning es m m') (hs : m.staged = .empty)
    (hes : ∀ e ∈ es, n ≤ e.frame.governor) (hn : n ≤ m.governors.size) :
    m'.staged = .empty ∧ n ≤ m'.governors.size ∧ ∀ g < n, m'.generation g = m.generation g := by
  induction hf with
  | none m => exact ⟨hs, hn, fun _ _ => rfl⟩
  | @dropped m m' e es rest hq hl next ih =>
    exact ih hs (fun e he => hes e (List.mem_cons_of_mem _ he)) hn
  | @performed m m₁ m₂ m' e new es rest hq hl hp hnew inner next ihinner ihnext =>
    obtain ⟨hfirst, hothers⟩ := List.forall_mem_cons.mp hes
    obtain ⟨frame, hspawned⟩ := exists_spawned hs hp
    have hframe : n ≤ frame.governor := by
      rcases hspawned.governor with h | h
      · rw [h]
        exact hfirst
      · rw [h]
        exact hn
    have hentries : ∀ e ∈ new, n ≤ e.frame.governor := by
      intro e' he'
      rw [hspawned.frame_of_mem hnew he']
      exact hframe
    obtain ⟨hs₂, hn₂, hinner⟩ :=
      ihinner (Machine.staged_perform hp) hentries (Nat.le_trans hn hspawned.size)
    obtain ⟨hs', hn', hnext⟩ := ihnext hs₂ hothers hn₂
    refine ⟨hs', hn', fun g hg => ?_⟩
    have hturn := generation_turn_of_ne m e rest (Nat.ne_of_lt (Nat.lt_of_lt_of_le hg hfirst))
    rw [hp] at hturn
    rw [hnext g hg, hinner g hg, hturn]

/-- A call in a frame of its own has a new governor and ends nothing. -/
theorem upshot_of_separate {limits : Limits} {level : Level} {s : Standing} {a : Action standard}
    (ha : Separate (.act a)) (hfault : (upshot limits level a s).fault = none) :
    (∃ returns, (upshot limits level a s).scope = .own returns) ∧ (upshot limits level a s).ends = 0 := by
  cases ha with
  | call body returns source =>
    have hpay : upshot limits level (.call body returns false source) s = s.pay limits fun s =>
        { standing := s.write (·.trace (.call level.depth body.id body.lines.length))
          scope := .own returns
          items := body.lines.map (Dialect.line source) } := rfl
    rw [hpay, Standing.pay] at hfault ⊢
    by_cases hroom : s.cost < limits.commands
    · rw [if_pos hroom]
      exact ⟨⟨returns, rfl⟩, rfl⟩
    · rw [if_neg hroom] at hfault
      cases hfault
  | isolated body source => exact ⟨⟨source.callback, rfl⟩, rfl⟩

/-- It and all it leads to leave every governor alone that was there. -/
theorem Finishes.spares_of_separate (hf : Finishes taskMeaning [e] m m') (hs : m.staged = .empty)
    (he : Separate e.action) :
    m'.staged = .empty ∧ ∀ g < m.governors.size, m'.generation g = m.generation g := by
  cases hf with
  | dropped hq hl next =>
    cases next
    exact ⟨hs, fun _ _ => rfl⟩
  | @performed _ m₁ m₂ _ _ new _ rest hq hl hp hnew inner next =>
    cases next
    obtain ⟨a, ha⟩ : ∃ a, e.action = .act a := by
      generalize e.action = task at he
      cases he with
      | call body returns source => exact ⟨_, rfl⟩
      | isolated body source => exact ⟨_, rfl⟩
    rw [ha] at he
    obtain ⟨⟨returns, hscope⟩, hends⟩ := upshot_of_separate he (perform_act ha hp).1
    have hscope' : (upshot m.limits (levelOf e.frame) a (standingOf m)).scope = .own returns := hscope
    have hspawned := spawned_act ha hs hp
    rw [hscope'] at hspawned
    have hentries : ∀ e ∈ new, m.governors.size ≤ e.frame.governor := by
      intro e' he'
      rw [hspawned.frame_of_mem hnew he']
      exact Nat.le_refl _
    obtain ⟨hs', -, hinner⟩ :=
      Finishes.spares inner (Machine.staged_perform hp) hentries hspawned.size
    refine ⟨hs', fun g hg => ?_⟩
    have hdiscards : (m.turn taskMeaning e rest).discards g = 0 := by
      rw [discards_turn m rest ha]
      split
      · exact hends
      · rfl
    rw [hinner g hg, Machine.generation_of_perform hp hdiscards]

/-! ### Governors that are there -/

/-- Whatever waits is under a governor that was made. -/
structure Housed (m : Rig) : Prop where
  queue : ∀ e ∈ m.queue.toList, e.frame.governor < m.governors.size
  staged : ∀ e ∈ m.staged.toList, e.frame.governor < m.governors.size
  byDepth : ∀ entry ∈ m.byDepth, entry.2 < m.governors.size

theorem Housed.splice (h : Housed m) : Housed m.splice where
  queue e he := by
    rw [Machine.splice, Backlog.toList_splice, List.mem_append, List.mem_reverse] at he
    exact he.elim (h.staged e) (h.queue e)
  staged _ he := absurd he List.not_mem_nil
  byDepth := h.byDepth

theorem Housed.governorAt (h : Housed m) (depth : Nat) :
    Housed (m.governorAt depth).2 ∧ (m.governorAt depth).1 < (m.governorAt depth).2.governors.size := by
  unfold Machine.governorAt
  cases hlookup : m.byDepth.lookup depth with
  | some g =>
    obtain ⟨before, after, hbyDepth, -⟩ := List.lookup_eq_some_iff.mp hlookup
    refine ⟨h, h.byDepth (depth, g) ?_⟩
    rw [hbyDepth]
    exact List.mem_append_right _ List.mem_cons_self
  | none =>
    have hsize : (m.govern depth).2.governors.size = m.governors.size + 1 := Array.size_push ..
    have hlast : (m.govern depth).1 < (m.govern depth).2.governors.size := by
      rw [hsize]
      exact Nat.lt_succ_self _
    have hmore {i : Nat} (hi : i < m.governors.size) : i < (m.govern depth).2.governors.size := by
      rw [hsize]
      exact Nat.lt_succ_of_lt hi
    exact ⟨⟨fun e he => hmore (h.queue e he), fun e he => hmore (h.staged e he),
      List.forall_mem_cons.mpr ⟨hlast, fun entry hentry => hmore (h.byDepth entry hentry)⟩⟩, hlast⟩

theorem Housed.submit (h : Housed m) (callback : Callback) (task : Task (Action standard)) :
    Housed (m.submit callback task) := by
  obtain ⟨hgoverned, hgovernor⟩ := h.governorAt 0
  exact ⟨hgoverned.queue, List.forall_mem_cons.mpr ⟨hgovernor, hgoverned.staged⟩, hgoverned.byDepth⟩

/-- Work makes governors and forgets none. -/
theorem steady_governors (m : Rig) :
    Machine.Steady fun m' : Rig => m'.byDepth = m.byDepth ∧ m.governors.size ≤ m'.governors.size where
  charge _ _ h := h
  stage _ _ h := h
  discard m' g h := ⟨h.1, Nat.le_trans h.2 (Nat.le_of_eq Array.size_modify.symm)⟩
  govern m' depth h := ⟨h.1, Nat.le_trans h.2 (by simp [Machine.govern])⟩
  change _ _ h := h
  queue _ _ _ _ _ _ h := h

theorem Housed.perform (h : Housed m) (hs : m.staged = .empty) (hq : m.queue.toList = e :: rest) :
    Housed (Machine.perform taskMeaning (m.begin e rest) e).2 := by
  obtain ⟨hdepths, hsize⟩ :
      (Machine.perform taskMeaning (m.begin e rest) e).2.byDepth = m.byDepth ∧
        m.governors.size ≤ (Machine.perform taskMeaning (m.begin e rest) e).2.governors.size :=
    (steady_governors m).perform ⟨rfl, Nat.le_refl _⟩
  have hbyDepth : ∀ entry ∈ (Machine.perform taskMeaning (m.begin e rest) e).2.byDepth,
      entry.2 < (Machine.perform taskMeaning (m.begin e rest) e).2.governors.size := by
    rw [hdepths]
    exact fun entry hentry => Nat.lt_of_lt_of_le (h.byDepth entry hentry) hsize
  have hqueue := h.queue
  rw [hq, List.forall_mem_cons] at hqueue
  match hp : Machine.perform taskMeaning (m.begin e rest) e with
  | (some fault, m₁) =>
    rw [hp] at hbyDepth
    obtain ⟨hqueue, hstaged⟩ := Machine.toList_of_pending (Machine.perform_fault hp).1
    refine ⟨fun e' he' => ?_, fun e' he' => ?_, hbyDepth⟩
    · rw [show (some fault, m₁).2.queue.toList = [] from hqueue] at he'
      cases he'
    · rw [show (some fault, m₁).2.staged.toList = [] from hstaged] at he'
      cases he'
  | (none, m₁) =>
    rw [hp] at hbyDepth hsize
    obtain ⟨frame, hspawned⟩ := exists_spawned hs hp
    obtain ⟨stamp, tasks, hfront⟩ := hspawned.queue
    refine ⟨fun e' he' => ?_, fun e' he' => ?_, hbyDepth⟩
    · rw [show (none, m₁).2 = m₁ from rfl, hfront] at he'
      rcases List.mem_append.mp he' with he' | he'
      · rw [(Frame.mem_entries he').1]
        exact hspawned.there hqueue.1
      · exact Nat.lt_of_lt_of_le (hqueue.2 e' he') hsize
    · rw [show (none, m₁).2.staged = .empty from Machine.staged_perform hp] at he'
      cases he'

/-- On every machine that submissions lead to, whatever waits is under a governor that was made. -/
theorem Reached.housed (h : Reached m) : Housed m := by
  induction h with
  | fresh limits world hl =>
    exact ⟨fun _ he => absurd he List.not_mem_nil, fun _ he => absurd he List.not_mem_nil,
      fun _ he => absurd he List.not_mem_nil⟩
  | hosted h world hl ih => exact ⟨ih.queue, ih.staged, ih.byDepth⟩
  | command h hparse source callback ih => exact ih.submit callback _
  | call h hbody source callback returns ih => exact ih.submit callback _
  | @ran m h fuel ih =>
    refine (Machine.drain_keeps (P := fun m => Housed m ∧ m.staged = .empty) ?_ ?_ fuel
      ⟨ih.splice, rfl⟩).1
    · intro m e rest hm hq
      have hqueue := hm.1.queue
      rw [hq, List.forall_mem_cons] at hqueue
      exact ⟨⟨hqueue.2, hm.1.staged, hm.1.byDepth⟩, hm.2⟩
    · exact fun m e rest hm hq => ⟨hm.1.perform hm.2 hq, Machine.staged_perform rfl⟩

/-! ### Pending work -/

/-- **Calls in frames of their own do not disturb pending work.** Wherever the run of a machine that
submissions lead to has got, its next turn moves on the governor of the entry's own frame at most, and
only if the entry was alive. If the entry is a call in a frame of its own, the run comes to the point
where everything is done that the call leads to, unless it is aborted; and there the very entries wait
that waited behind the call, in the same order, each as live as it was. -/
theorem undisturbed {m₀ : Rig} (hm₀ : Reached m₀) (turns : Nat)
    (hq : (m₀.run taskMeaning turns).2.queue.toList = e :: rest) :
    let m := (m₀.run taskMeaning turns).2
    (∀ g, (m₀.run taskMeaning (turns + 1)).2.generation g ≠ m.generation g →
      g = e.frame.governor ∧ m.isLive e = true) ∧
    (Separate e.action →
      (∀ m', Finishes taskMeaning [e] m m' →
        (∃ more, (m₀.run taskMeaning (turns + more)).2 = m') ∧ m'.staged = .empty ∧
          m'.queue.toList = rest ∧ ∀ e' ∈ rest, m'.isLive e' = m.isLive e') ∧
      ((∃ m', Finishes taskMeaning [e] m m') ∨
        ∃ fuel fault, (m₀.run taskMeaning fuel).1 = .aborted fault)) := by
  intro m
  have hs : m.staged = .empty := Machine.staged_drain turns rfl
  have hm : Reached m := hm₀.ran turns
  have hq' : m.queue.toList = [e] ++ rest := hq
  have hon (more : Nat) : m₀.run taskMeaning (turns + more) = Machine.drain taskMeaning more m := by
    refine Machine.drain_add ?_ more
    change m.queue.toList ≠ []
    rw [hq]
    exact List.cons_ne_nil e rest
  refine ⟨fun g hg => ?_, fun hseparate => ⟨fun m' hf => ?_, ?_⟩⟩
  · rw [hon 1, Machine.snd_drain_one hq] at hg
    cases hl : m.isLive e with
    | false =>
      rw [hl, if_neg Bool.false_ne_true] at hg
      exact absurd rfl hg
    | true =>
      rw [hl, if_pos rfl] at hg
      exact ⟨Decidable.byContradiction fun hne => hg (generation_turn_of_ne m e rest hne), rfl⟩
  · obtain ⟨hrest, turns', hdrain⟩ := hf.drain hq'
    obtain ⟨hs', hspares⟩ := Finishes.spares_of_separate hf hs hseparate
    refine ⟨⟨turns', ?_⟩, hs', hrest, fun e' he' => ?_⟩
    · rw [hon turns']
      exact (congrArg Prod.snd (hdrain 0)).trans (Machine.snd_drain_zero m')
    · have hthere := hm.housed.queue e' (hq ▸ List.mem_cons_of_mem e he')
      rw [Machine.isLive, Machine.isLive, hspares _ hthere]
  · obtain ⟨b, hb, hsound⟩ := exists_sound hm.observes hs
    have hends : (Machine.drain taskMeaning (potential b m) m).1 ≠ .unfinished :=
      (turns_le_potential hb (potential b m) hsound).2 (Nat.le_refl _)
    refine ((Machine.course_of_drain rfl hends).finishes hq').imp_right ?_
    rintro ⟨fault, hfault⟩
    refine ⟨turns + potential b m, fault, ?_⟩
    rw [hon]
    exact hfault

/-- Two lines wait that each call the function for two sources. -/
def asking : Rig := (submitted {} answering .empty askTwice).submit .empty (.act askTwice)

theorem reached_asking : Reached asking := by
  have hcompile : Function.compile parse "m:answer" 4 ["return 3", "say no"] = .ok (.plain answer) := rfl
  have hcompiled : answering.host.library.Compiled := by
    intro entry hentry
    rw [List.mem_singleton.mp hentry]
    exact .text hcompile
  have hparse : parse 4 "execute as a,b run function m:answer" =
      .ok ⟨"execute as a,b run function m:answer", [],
        { input := "as a,b", redirect := some (.modifier (.rename ["a", "b"])), forks := true },
        [{ input := "function m:answer",
           executable := some (.custom (.function "m:answer" none)) }]⟩ := rfl
  exact .command (.command (.fresh {} answering hcompiled) hparse _ .empty) hparse _ .empty

/-- The first call returns in its frame; the second one and the other line are still there, and
alive. -/
theorem undisturbed_asking :
    Reached asking ∧ ∃ e rest m', (asking.run taskMeaning 1).2.queue.toList = e :: rest ∧
      Separate e.action ∧ rest.length = 2 ∧ Finishes taskMeaning [e] (asking.run taskMeaning 1).2 m' ∧
      m'.queue.toList = rest ∧ ∀ e' ∈ rest, m'.isLive e' = true := by
  obtain ⟨e, rest, hq, hseparate, hlength, hlive⟩ : ∃ e rest,
      (asking.run taskMeaning 1).2.queue.toList = e :: rest ∧ Separate e.action ∧ rest.length = 2 ∧
        ∀ e' ∈ rest, (asking.run taskMeaning 1).2.isLive e' = true :=
    ⟨_, _, rfl, .call _ _ _, rfl,
      List.forall_mem_cons.mpr ⟨rfl, List.forall_mem_cons.mpr ⟨rfl, fun _ he => nomatch he⟩⟩⟩
  obtain ⟨-, hafter⟩ := undisturbed reached_asking 1 hq
  obtain ⟨hfinishes, hends⟩ := hafter hseparate
  have hfinished : ∃ cost deepest, (asking.run taskMeaning 20).1 = .finished cost deepest := ⟨_, _, rfl⟩
  rcases hends with ⟨m', hf⟩ | ⟨fuel, fault, haborted⟩
  · obtain ⟨-, -, hrest, hsame⟩ := hfinishes m' hf
    exact ⟨reached_asking, e, rest, m', hq, hseparate, hlength, hf, hrest,
      fun e' he' => (hsame e' he').trans (hlive e' he')⟩
  · -- the run comes to its end, so it is not aborted
    obtain ⟨cost, deepest, hfinished⟩ := hfinished
    have hruns : asking.Runs taskMeaning _ (.finished cost deepest) _ :=
      ⟨nofun, 20, Prod.ext hfinished rfl, rfl⟩
    have hruns' : asking.Runs taskMeaning _ (.aborted fault) _ :=
      ⟨nofun, fuel, Prod.ext haborted rfl, rfl⟩
    cases (hruns.unique hruns').2.1

end Trampoline.Command
