import Trampoline.Proofs.Command.Turn

/-! The queue does what a recursive interpreter does.

`act` does an action and then, before it gives an answer, everything the action
leads to: each item is done to its end before the next one is begun. It has no
queue and no governors. All it says of a frame is whether the frame goes on, and
a frame that was ended loses the items that are not yet begun. Its fuel is how
deep it may go, and once that is enough more of it changes nothing (`act_mono`).

A run that comes to its end does the same (`run_refines_act`), unless a governor is
discarded so often that its generation wraps around. The induction is on what is
left of the run: entries that wait in front, all in one frame and all alive, are
interpreted as the items they stand for, and the run comes to what waited behind
them (`interprets`). -/
namespace Trampoline.Command

/-! ### The interpreter -/

/-- Whether a frame goes on. -/
inductive Flow where
  | onward
  | ended
  deriving DecidableEq, Repr

/-- The level the items are done at. -/
def Scope.level (scope : Scope) (level : Level) : Level :=
  match scope with
  | .same => level
  | .shared returns => ⟨Depth.below level.depth, returns⟩
  | .own returns => ⟨Depth.below level.depth, returns⟩

/-- Whether the frame of an action goes on after its items did or did not. -/
def Upshot.flow (u : Upshot) (items : Flow) : Flow :=
  if u.ends = 0 then
    match u.scope with
    | .same => items
    | .shared _ => items
    | .own _ => .onward
  else .ended

/-- Does actions one after another, as long as their frame goes on. -/
def inTurn (act : Action standard → Standing → Option (Flow × Standing)) :
    List (Action standard) → Standing → Option (Flow × Standing)
  | [], s => some (.onward, s)
  | action :: rest, s =>
    match act action s with
    | none => none
    | some (.onward, s) => inTurn act rest s
    | some (.ended, s) => some (.ended, s)

/-- Does an action with all that comes of it; nothing if a fault ends the run or the fuel is not
enough. -/
def act (limits : Limits) : Nat → Level → Action standard → Standing → Option (Flow × Standing)
  | 0, _, _, _ => none
  | fuel + 1, level, action, s =>
    let u := upshot limits level action s
    match u.fault with
    | some _ => none
    | none =>
      match inTurn (act limits fuel (u.scope.level level)) u.items u.standing with
      | none => none
      | some (items, s) => some (u.flow items, s)

variable {limits : Limits} {level : Level} {action : Action standard}
  {actions : List (Action standard)} {s s' : Standing} {flow : Flow} {fuel fuel' : Nat}

theorem inTurn_mono {f g : Action standard → Standing → Option (Flow × Standing)}
    (hfg : ∀ action s r, f action s = some r → g action s = some r) {r : Flow × Standing}
    (h : inTurn f actions s = some r) : inTurn g actions s = some r := by
  induction actions generalizing s with
  | nil => exact h
  | cons action rest ih =>
    rw [inTurn] at h ⊢
    cases hf : f action s with
    | none =>
      rw [hf] at h
      cases h
    | some first =>
      rw [hf] at h
      rw [hfg action s first hf]
      obtain ⟨flow, s'⟩ := first
      cases flow with
      | onward => exact ih h
      | ended => exact h

theorem act_succ (hfault : (upshot limits level action s).fault = none)
    (h : inTurn (act limits fuel ((upshot limits level action s).scope.level level))
      (upshot limits level action s).items (upshot limits level action s).standing =
        some (flow, s')) :
    act limits (fuel + 1) level action s = some ((upshot limits level action s).flow flow, s') := by
  simp only [act, hfault, h]

/-- What it takes for an action to be done. -/
theorem act_cases (h : act limits (fuel + 1) level action s = some (flow, s')) :
    (upshot limits level action s).fault = none ∧
      ∃ items, inTurn (act limits fuel ((upshot limits level action s).scope.level level))
          (upshot limits level action s).items (upshot limits level action s).standing =
            some (items, s') ∧
        flow = (upshot limits level action s).flow items := by
  rw [act] at h
  cases hfault : (upshot limits level action s).fault with
  | some fault =>
    rw [hfault] at h
    cases h
  | none =>
    rw [hfault] at h
    refine ⟨rfl, ?_⟩
    generalize inTurn (act limits fuel _) _ _ = result at h ⊢
    cases result with
    | none => cases h
    | some result =>
      cases h
      exact ⟨_, rfl, rfl⟩

/-- More fuel than enough changes nothing. -/
theorem act_mono {r : Flow × Standing} (h : act limits fuel level action s = some r)
    (hle : fuel ≤ fuel') : act limits fuel' level action s = some r := by
  induction fuel generalizing level action s r fuel' with
  | zero => cases h
  | succ fuel ih =>
    obtain ⟨fuel', rfl⟩ : ∃ k, fuel' = k + 1 := ⟨fuel' - 1, by omega⟩
    obtain ⟨hfault, items, hitems, hflow⟩ := act_cases h
    have hless : fuel ≤ fuel' := Nat.le_of_succ_le_succ hle
    have hmore := act_succ hfault (inTurn_mono (fun _ _ _ h => ih h hless) hitems)
    rw [hmore, ← hflow]

theorem inTurn_act_mono {r : Flow × Standing}
    (h : inTurn (act limits fuel level) actions s = some r) (hle : fuel ≤ fuel') :
    inTurn (act limits fuel' level) actions s = some r :=
  inTurn_mono (fun _ _ _ h => act_mono h hle) h

theorem inTurn_singleton (act : Action standard → Standing → Option (Flow × Standing))
    (action : Action standard) (s : Standing) : inTurn act [action] s = act action s := by
  rw [inTurn]
  cases act action s with
  | none => rfl
  | some result =>
    obtain ⟨flow, s'⟩ := result
    cases flow <;> rfl

/-! ### A stretch of a run -/

/-- What `h` does on the way from one machine to another: of the governors there were, it discards
the work of `g` only, and it discards none so often that the counter wraps around. -/
structure Passage (g : GovernorId) (m : Rig) (h : RigHistory) (m' : Rig) : Prop where
  limits : m'.limits = m.limits
  staged : m'.staged = .empty
  size : m.governors.size ≤ m'.governors.size
  counts : ∀ g', (m'.generation g').toNat = (m.generation g').toNat + h.discards g'
  outside : ∀ g' < m.governors.size, g' ≠ g → h.discards g' = 0

namespace Passage

variable {g g' : GovernorId} {m m₁ m₂ : Rig} {h h' : RigHistory}

theorem refl (g : GovernorId) (hs : m.staged = .empty) : Passage g m [] m :=
  ⟨rfl, hs, Nat.le_refl _, fun _ => rfl, fun _ _ _ => rfl⟩

/-- The second stretch may be about a governor made in the first one. -/
theorem trans (p : Passage g m h m₁) (p' : Passage g' m₁ h' m₂)
    (hg : g' = g ∨ m.governors.size ≤ g') : Passage g m (h ++ h') m₂ where
  limits := p'.limits.trans p.limits
  staged := p'.staged
  size := Nat.le_trans p.size p'.size
  counts i := by rw [History.discards_append, p'.counts, p.counts, Nat.add_assoc]
  outside i hi hne := by
    have hother : i ≠ g' := by
      rcases hg with rfl | hg
      · exact hne
      · omega
    rw [History.discards_append, p.outside i hi hne,
      p'.outside i (Nat.lt_of_lt_of_le hi p.size) hother]

end Passage

variable {m m' m₁ m₂ : Rig} {e : Entry (Task (Action standard))}
  {es rest rest' : List (Entry (Task (Action standard)))} {h : RigHistory} {frame : Frame} {u : Upshot}

theorem passage_act {a : Action standard} (ha : e.action = .act a)
    (hp : Machine.perform taskMeaning (m.begin e rest) e = (none, m₂))
    (hg : e.frame.governor < m.governors.size)
    (hn : (m.generation e.frame.governor).toNat +
      (m.turn taskMeaning e rest).discards e.frame.governor < UInt32.size) :
    Passage e.frame.governor m (m.turn taskMeaning e rest) m₂ := by
  rw [discards_turn _ _ ha, if_pos rfl] at hn
  obtain ⟨hf, rfl⟩ := perform_act ha hp
  have hsettle := settle_of_no_fault e.frame (m.begin e rest) hf
  constructor
  · rw [hsettle]
    change (Machine.pushAll _ _ _).limits = _
    rw [Machine.limits_pushAll, ready_eq]
    rfl
  · rfl
  · rw [hsettle]
    change _ ≤ (Machine.pushAll _ _ _).governors.size
    rw [Machine.governors_pushAll]
    exact size_governors_ready _ _ (m.begin e rest)
  · intro g
    rw [hsettle, discards_turn _ _ ha]
    change (Machine.generation (Machine.pushAll _ _ _) g).toNat = _
    rw [Machine.generation_pushAll]
    exact generation_ready (m := m.begin e rest) hg hn g
  · intro g hlt hne
    rw [discards_turn _ _ ha, if_neg hne]

theorem passage_fan {items : List (Action standard)} (he : e.action = .fan items)
    (hp : Machine.perform taskMeaning (m.begin e rest) e = (none, m₂)) (g : GovernorId) :
    Passage g m (m.turn taskMeaning e rest) m₂ := by
  rw [perform_fan he hp]
  constructor
  · exact Machine.limits_pushAll ..
  · rfl
  · exact Nat.le_of_eq (congrArg Array.size
      (Machine.governors_pushAll (m.begin e rest) e.frame (Task.unfolded items)).symm)
  · intro g'
    rw [discards_fan he, Nat.add_zero]
    exact congrArg UInt32.toNat
      (Machine.generation_pushAll (m.begin e rest) e.frame (Task.unfolded items) g')
  · exact fun g' _ _ => discards_fan he g'

/-- Entries that are dead are dropped. -/
theorem passage_dead {cost deepest : Nat} (g : GovernorId) (hs : m.staged = .empty)
    (c : Machine.Course taskMeaning m h (.finished cost deepest) m')
    (hq : m.queue.toList = es ++ rest) (hd : ∀ e ∈ es, m.isLive e = false) :
    ∃ h₁ h₂, h = h₁ ++ h₂ ∧ Passage g m h₁ (m.without rest) ∧
      h₁.discards g = 0 ∧
      Machine.Course taskMeaning (m.without rest) h₂ (.finished cost deepest) m' := by
  induction es generalizing m h with
  | nil =>
    have hm : m.without rest = m := by
      have hqueue : Backlog.ofList rest = m.queue := Backlog.ext_toList hq.symm
      unfold Machine.without
      rw [hqueue]
    exact ⟨[], h, rfl, hm.symm ▸ .refl g hs, rfl, hm.symm ▸ c⟩
  | cons e es ih =>
    have hdead := hd e List.mem_cons_self
    have hcons : m.queue.toList = e :: (es ++ rest) := hq
    cases c with
    | finished hq' =>
      rw [hcons] at hq'
      cases hq'
    | dropped hq' hl next =>
      obtain ⟨rfl, rfl⟩ := List.cons.inj (hcons.symm.trans hq')
      obtain ⟨h₁, h₂, rfl, p, hnone, c₂⟩ :=
        ih (m := m.without (es ++ rest)) hs next rfl fun e he => hd e (List.mem_cons_of_mem _ he)
      refine ⟨(.dropped e, m.without (es ++ rest)) :: h₁, h₂, rfl, ?_, hnone, c₂⟩
      exact ⟨p.limits, p.staged, p.size, p.counts, p.outside⟩
    | performed hq' hl hp next =>
      obtain ⟨rfl, rfl⟩ := List.cons.inj (hcons.symm.trans hq')
      rw [hdead] at hl
      cases hl

/-! ### The simulation -/

/-- Entries that wait in front, all in one frame and all alive. -/
structure Front (limits : Limits) (frame : Frame) (m : Rig) (h : RigHistory)
    (es rest : List (Entry (Task (Action standard)))) : Prop where
  limits : m.limits = limits
  staged : m.staged = .empty
  queue : m.queue.toList = es ++ rest
  entries : ∀ e ∈ es, e.frame = frame ∧ e.stamp = m.generation frame.governor
  governor : frame.governor < m.governors.size
  /-- No counter wraps around in what is left of the run. -/
  counts : ∀ g, (m.generation g).toNat + h.discards g < UInt32.size

/-- What is left of a run once the entries in front have been interpreted. -/
structure Interpreted (limits : Limits) (frame : Frame) (m : Rig) (h : RigHistory)
    (actions : List (Action standard)) (rest : List (Entry (Task (Action standard))))
    (ending : Ending) (m' : Rig) (flow : Flow) (m₁ : Rig) (h₁ h₂ : RigHistory) : Prop where
  result : ∃ fuel,
    inTurn (act limits fuel (levelOf frame)) actions (standingOf m) = some (flow, standingOf m₁)
  history : h = h₁ ++ h₂
  passage : Passage frame.governor m h₁ m₁
  flow : flow = .onward ↔ h₁.discards frame.governor = 0
  queue : m₁.queue.toList = rest
  next : Machine.Course taskMeaning m₁ h₂ ending m'

/-- Runs of fewer than `n` operations do what the interpreter does. -/
def Interprets (limits : Limits) (n : Nat) : Prop :=
  ∀ (m : Rig) (h : RigHistory) (m' : Rig) (cost deepest : Nat) (frame : Frame)
    (es rest : List (Entry (Task (Action standard)))),
    h.length < n → Machine.Course taskMeaning m h (.finished cost deepest) m' →
    Front limits frame m h es rest →
    ∃ flow m₁ h₁ h₂, Interpreted limits frame m h (es.flatMap (·.action.items)) rest
      (.finished cost deepest) m' flow m₁ h₁ h₂

theorem Passage.fits {g : GovernorId} {h₁ h₂ : RigHistory} (p : Passage g m h₁ m₁)
    (hcounts : ∀ g, (m.generation g).toNat + (h₁ ++ h₂).discards g < UInt32.size) :
    ∀ g, (m₁.generation g).toNat + h₂.discards g < UInt32.size := by
  intro g
  have h := hcounts g
  rw [History.discards_append, ← Nat.add_assoc, ← p.counts] at h
  exact h

theorem flatMap_entries (frame : Frame) (stamp : UInt32) (tasks : List (Task (Action standard))) :
    (frame.entries stamp tasks).flatMap (·.action.items) = tasks.flatMap Task.items :=
  List.flatMap_map ..

theorem interpreted_fan {n cost deepest : Nat} {items : List (Action standard)}
    (ih : Interprets limits n) (hn : h.length < n) (he : e.action = .fan items)
    (hp : Machine.perform taskMeaning (m.begin e (es ++ rest)) e = (none, m₂))
    (hf : Front limits frame m (m.turn taskMeaning e (es ++ rest) ++ h) (e :: es) rest)
    (next : Machine.Course taskMeaning m₂ h (.finished cost deepest) m') :
    ∃ flow m₁ h₁ h₂, Interpreted limits frame m (m.turn taskMeaning e (es ++ rest) ++ h)
      ((e :: es).flatMap (·.action.items)) rest (.finished cost deepest) m' flow m₁ h₁ h₂ := by
  have hframe := (hf.entries e List.mem_cons_self).1
  have p := passage_fan he hp frame.governor
  have hm₂ := perform_fan he hp
  have hgeneration : m₂.generation frame.governor = m.generation frame.governor := by
    rw [hm₂]
    exact Machine.generation_pushAll (m.begin e (es ++ rest)) e.frame (Task.unfolded items) _
  generalize hfront : frame.entries (m.generation frame.governor) (Task.unfolded items) = front
  have hqueue : m₂.queue.toList = (front ++ es) ++ rest := by
    have hspliced := Machine.queue_splice_pushAll (m.begin e (es ++ rest)) e.frame
      (Task.unfolded items) hf.staged
    rw [hm₂, hspliced, hframe, List.append_assoc, ← hfront]
    rfl
  have hf₂ : Front limits frame m₂ h (front ++ es) rest := by
    refine ⟨p.limits.trans hf.limits, p.staged, hqueue, ?_, Nat.lt_of_lt_of_le hf.governor p.size,
      p.fits hf.counts⟩
    intro e' he'
    rw [hgeneration]
    rcases List.mem_append.mp he' with he' | he'
    · exact Frame.mem_entries (hfront ▸ he')
    · exact hf.entries e' (List.mem_cons_of_mem _ he')
  have hitems : (front ++ es).flatMap (·.action.items) = (e :: es).flatMap (·.action.items) := by
    rw [List.flatMap_append, List.flatMap_cons, he, ← hfront, flatMap_entries,
      Task.flatMap_unfolded]
    rfl
  obtain ⟨flow, m₁, h₁, h₂, i⟩ := ih m₂ h m' cost deepest frame (front ++ es) rest hn next hf₂
  refine ⟨flow, m₁, _, h₂, ?_, ?_, p.trans i.passage (.inl rfl), ?_, i.queue, i.next⟩
  · rw [← standing_fan he hp, ← hitems]
    exact i.result
  · rw [i.history, List.append_assoc]
  · rw [i.flow, History.discards_append, discards_fan he, Nat.zero_add]

/-- Whether the frame of an action goes on can be read off what was discarded. -/
theorem flow_eq_onward {flow : Flow} {k : Nat}
    (hsame : (u.scope.frame frame m.governors.size).governor = frame.governor →
      (flow = .onward ↔ k = 0))
    (hown : (u.scope.frame frame m.governors.size).governor ≠ frame.governor → k = 0)
    (hg : frame.governor < m.governors.size) :
    u.flow flow = .onward ↔ u.ends + k = 0 := by
  unfold Upshot.flow
  by_cases hends : u.ends = 0
  · rw [if_pos hends, hends, Nat.zero_add]
    revert hsame hown
    cases u.scope with
    | same => exact fun hsame _ => hsame rfl
    | shared returns => exact fun hsame _ => hsame rfl
    | own returns =>
      intro _ hown
      have hne : m.governors.size ≠ frame.governor := Ne.symm (Nat.ne_of_lt hg)
      exact ⟨fun _ => hown hne, fun _ => rfl⟩
  · rw [if_neg hends]
    exact ⟨fun h => (nomatch h), fun h => absurd (Nat.eq_zero_of_add_eq_zero_right h) hends⟩

theorem levelOf_frame (scope : Scope) (frame : Frame) (fresh : GovernorId) :
    levelOf (scope.frame frame fresh) = scope.level (levelOf frame) := by
  cases scope <;> rfl

theorem governor_frame (scope : Scope) (frame : Frame) (fresh : GovernorId) :
    (scope.frame frame fresh).governor = frame.governor ∨
      (scope.frame frame fresh).governor = fresh := by
  cases scope with
  | same => exact .inl rfl
  | shared returns => exact .inl rfl
  | own returns => exact .inr rfl

/-- The items of an action that was performed are in front, alive, in their own frame. -/
theorem front_items {a : Action standard} (he : e.action = .act a)
    (hp : Machine.perform taskMeaning (m.begin e rest) e = (none, m₂))
    (hu : upshot m.limits (levelOf e.frame) a (standingOf m) = u)
    (p : Passage e.frame.governor m (m.turn taskMeaning e rest) m₂)
    (hf : Front limits e.frame m (m.turn taskMeaning e rest ++ h) (e :: es) rest') :
    Front limits (u.scope.frame e.frame m.governors.size) m₂ h
      ((u.scope.frame e.frame m.governors.size).entries
        (m₂.generation (u.scope.frame e.frame m.governors.size).governor) u.tasks) rest := by
  obtain ⟨hfault, hm₂⟩ := perform_act he hp
  rw [show upshot (m.begin e rest).limits (levelOf e.frame) a (standingOf (m.begin e rest)) = u
    from hu] at hfault hm₂
  have hsettle := settle_of_no_fault e.frame (m.begin e rest) hfault
  have hgeneration (g : GovernorId) :
      m₂.generation g = (u.ready e.frame (m.begin e rest)).generation g := by
    rw [hm₂, hsettle]
    exact Machine.generation_pushAll ..
  have hgovernors : m₂.governors = (u.ready e.frame (m.begin e rest)).governors := by
    rw [hm₂, hsettle]
    exact Machine.governors_pushAll ..
  constructor
  · exact p.limits.trans hf.limits
  · exact p.staged
  · rw [hgeneration, hm₂]
    exact queue_settle e.frame (m := m.begin e rest) hfault hf.staged
  · exact fun e' he' => Frame.mem_entries he'
  · rw [hgovernors]
    exact governor_frame_lt (m := m.begin e rest) hf.governor
  · exact p.fits hf.counts

/-- An action and its items are interpreted before what waits behind it. -/
theorem interpreted_one {n cost deepest : Nat} {a : Action standard}
    (ih : Interprets limits n) (hn : h.length < n) (he : e.action = .act a)
    (hp : Machine.perform taskMeaning (m.begin e (es ++ rest)) e = (none, m₂))
    (hf : Front limits frame m (m.turn taskMeaning e (es ++ rest) ++ h) (e :: es) rest)
    (next : Machine.Course taskMeaning m₂ h (.finished cost deepest) m') :
    ∃ flow m₁ h₁ h₂, Interpreted limits frame m (m.turn taskMeaning e (es ++ rest) ++ h) [a]
      (es ++ rest) (.finished cost deepest) m' flow m₁ h₁ h₂ ∧ h₂.length < n := by
  obtain ⟨rfl, -⟩ := hf.entries e List.mem_cons_self
  have hcounts := hf.counts e.frame.governor
  rw [History.discards_append, ← Nat.add_assoc] at hcounts
  have p := passage_act he hp hf.governor (by omega)
  have hends := discards_turn m (es ++ rest) he e.frame.governor
  rw [if_pos rfl] at hends
  generalize hu : upshot m.limits (levelOf e.frame) a (standingOf m) = u at hends
  have hstanding := standing_act he hp
  have hfault : (upshot m.limits (levelOf e.frame) a (standingOf m)).fault = none :=
    (perform_act he hp).1
  rw [hu] at hstanding hfault
  -- the items wait in front of everything else, in whatever frame they belong to
  obtain ⟨flow, m₃, h₁, h₂, i⟩ := ih m₂ h m' cost deepest _ _ (es ++ rest) hn next
    (front_items he hp hu p hf)
  refine ⟨u.flow flow, m₃, m.turn taskMeaning e (es ++ rest) ++ h₁, h₂, ⟨?_, ?_, ?_, ?_, i.queue,
    i.next⟩, ?_⟩
  · obtain ⟨fuel, hresult⟩ := i.result
    rw [flatMap_entries, Upshot.flatMap_tasks, levelOf_frame, hstanding] at hresult
    rw [hf.limits] at hu
    subst hu
    exact ⟨fuel + 1, (inTurn_singleton ..).trans (act_succ hfault hresult)⟩
  · rw [i.history, List.append_assoc]
  · exact p.trans i.passage ((governor_frame u.scope e.frame m.governors.size).imp_right
      fun h => Nat.le_of_eq h.symm)
  · rw [History.discards_append, hends]
    refine flow_eq_onward (m := m) (fun hsame => ?_) (fun hown => ?_) hf.governor
    · rw [← hsame]
      exact i.flow
    · exact i.passage.outside _ (Nat.lt_of_lt_of_le hf.governor p.size) (Ne.symm hown)
  · have hlength := congrArg List.length i.history
    rw [List.length_append] at hlength
    omega

variable {a : Action standard} {ending : Ending} {h₁ h₂ : RigHistory}

/-- As long as nothing ends the frame, what waits in it is alive. -/
theorem Interpreted.front
    (i : Interpreted limits frame m h [a] (es ++ rest) ending m' .onward m₁ h₁ h₂)
    (hf : Front limits frame m h (e :: es) rest) : Front limits frame m₁ h₂ es rest := by
  have q := i.passage
  have hcounts := hf.counts
  rw [i.history] at hcounts
  have hgeneration : m₁.generation frame.governor = m.generation frame.governor := by
    apply UInt32.toNat_inj.mp
    rw [q.counts, i.flow.mp rfl, Nat.add_zero]
  refine ⟨q.limits.trans hf.limits, q.staged, i.queue, ?_, Nat.lt_of_lt_of_le hf.governor q.size,
    q.fits hcounts⟩
  intro e' he'
  rw [hgeneration]
  exact hf.entries e' (List.mem_cons_of_mem _ he')

theorem Interpreted.onward {h₃ h₄ : RigHistory} {m₃ : Rig}
    (i : Interpreted limits frame m h [a] (es ++ rest) ending m' .onward m₁ h₁ h₂)
    (j : Interpreted limits frame m₁ h₂ actions rest ending m' flow m₃ h₃ h₄) :
    Interpreted limits frame m h (a :: actions) rest ending m' flow m₃ (h₁ ++ h₃) h₄ := by
  refine ⟨?_, ?_, i.passage.trans j.passage (.inl rfl), ?_, j.queue, j.next⟩
  · obtain ⟨fuel, hone⟩ := i.result
    obtain ⟨fuel', hrest⟩ := j.result
    refine ⟨max fuel fuel', ?_⟩
    rw [inTurn_singleton] at hone
    rw [inTurn, act_mono hone (Nat.le_max_left ..)]
    exact inTurn_act_mono hrest (Nat.le_max_right ..)
  · rw [i.history, j.history, List.append_assoc]
  · rw [j.flow, History.discards_append, i.flow.mp rfl, Nat.zero_add]

/-- A frame that was ended loses what waits in it. -/
theorem Interpreted.ended {cost deepest : Nat}
    (i : Interpreted limits frame m h [a] (es ++ rest) (.finished cost deepest) m' .ended m₁ h₁ h₂)
    (hf : Front limits frame m h (e :: es) rest) :
    ∃ m₃ h₃ h₄, Interpreted limits frame m h (a :: actions) rest (.finished cost deepest) m' .ended
      m₃ h₃ h₄ := by
  have hcount : h₁.discards frame.governor ≠ 0 := fun hzero => nomatch i.flow.mpr hzero
  have hdead : ∀ e' ∈ es, m₁.isLive e' = false := by
    intro e' he'
    obtain ⟨hframe, hstamp⟩ := hf.entries e' (List.mem_cons_of_mem _ he')
    rw [Machine.isLive, hframe, hstamp, beq_eq_false_iff_ne]
    intro heq
    have hmoved := i.passage.counts frame.governor
    rw [heq] at hmoved
    omega
  obtain ⟨h₃, h₄, hrest, d, hnone, c⟩ :=
    passage_dead frame.governor i.passage.staged i.next i.queue hdead
  refine ⟨m₁.without rest, h₁ ++ h₃, h₄, ?_, ?_, i.passage.trans d (.inl rfl), ?_, rfl, c⟩
  · obtain ⟨fuel, hone⟩ := i.result
    refine ⟨fuel, ?_⟩
    rw [inTurn_singleton] at hone
    rw [inTurn, hone]
    rfl
  · rw [i.history, hrest, List.append_assoc]
  · rw [History.discards_append, hnone, Nat.add_zero]
    exact ⟨fun h => (nomatch h), fun h => absurd h hcount⟩

theorem interpreted_act {n cost deepest : Nat} (ih : Interprets limits n) (hn : h.length < n)
    (he : e.action = .act a)
    (hp : Machine.perform taskMeaning (m.begin e (es ++ rest)) e = (none, m₂))
    (hf : Front limits frame m (m.turn taskMeaning e (es ++ rest) ++ h) (e :: es) rest)
    (next : Machine.Course taskMeaning m₂ h (.finished cost deepest) m') :
    ∃ flow m₁ h₁ h₂, Interpreted limits frame m (m.turn taskMeaning e (es ++ rest) ++ h)
      ((e :: es).flatMap (·.action.items)) rest (.finished cost deepest) m' flow m₁ h₁ h₂ := by
  have hactions : (e :: es).flatMap (·.action.items) = a :: es.flatMap (·.action.items) := by
    rw [List.flatMap_cons, he]
    rfl
  rw [hactions]
  obtain ⟨flow, m₁, h₁, h₂, i, hn₂⟩ := interpreted_one ih hn he hp hf next
  cases flow with
  | onward =>
    obtain ⟨flow, m₃, h₃, h₄, j⟩ :=
      ih m₁ h₂ m' cost deepest frame es rest hn₂ i.next (i.front hf)
    exact ⟨flow, m₃, _, h₄, i.onward j⟩
  | ended =>
    obtain ⟨m₃, h₃, h₄, j⟩ := i.ended hf
    exact ⟨.ended, m₃, h₃, h₄, j⟩

theorem interprets (limits : Limits) (n : Nat) : Interprets limits n := by
  induction n with
  | zero => exact fun _ _ _ _ _ _ _ _ hn => absurd hn (Nat.not_lt_zero _)
  | succ n ih =>
    intro m h m' cost deepest frame es rest hn c hf
    cases es with
    | nil =>
      exact ⟨.onward, m, [], h, ⟨0, rfl⟩, rfl, .refl _ hf.staged, ⟨fun _ => rfl, fun _ => rfl⟩,
        hf.queue, c⟩
    | cons e es =>
      obtain ⟨hframe, hstamp⟩ := hf.entries e List.mem_cons_self
      have hq : m.queue.toList = e :: (es ++ rest) := hf.queue
      have hlive : m.isLive e = true := by
        rw [Machine.isLive, hframe, hstamp, beq_self_eq_true]
      cases c with
      | finished hq' =>
        rw [hq] at hq'
        cases hq'
      | dropped hq' hl next =>
        obtain ⟨rfl, rfl⟩ := List.cons.inj (hq.symm.trans hq')
        rw [hlive] at hl
        cases hl
      | performed hq' hl hp next =>
        obtain ⟨rfl, rfl⟩ := List.cons.inj (hq.symm.trans hq')
        have hless : ∀ h : RigHistory, (m.turn taskMeaning e (es ++ rest) ++ h).length < n + 1 →
            h.length < n := by
          intro h hn
          rw [List.length_append, Machine.turn, List.length_cons] at hn
          omega
        cases ha : e.action with
        | act a => exact interpreted_act ih (hless _ hn) ha hp hf next
        | fan items => exact interpreted_fan ih (hless _ hn) ha hp hf next

theorem front_submitted (limits : Limits) (world : Scene Host) (callback : Callback)
    (action : Action standard) (hwrap : ∀ g, h.discards g < UInt32.size) :
    Front limits ⟨0, callback, 0⟩ (submitted limits world callback action).splice h
      [⟨⟨0, callback, 0⟩, 0, .act action⟩] [] := by
  refine ⟨rfl, rfl, rfl, ?_, Nat.zero_lt_one, ?_⟩
  · intro e he
    rw [List.mem_singleton.mp he]
    exact ⟨rfl, rfl⟩
  · intro g
    have hfirst : (submitted limits world callback action).splice.generation g = 0 :=
      (Machine.generation_govern _ 0 g).trans rfl
    rw [hfirst, UInt32.toNat_zero, Nat.zero_add]
    exact hwrap g

/-- A submission that runs to its end does what the interpreter does with it: the same is shown,
counted, heard and traced, in the same order, and the same is charged. -/
theorem run_refines_act (limits : Limits) (world : Scene Host) (callback : Callback)
    (action : Action standard) (fuel cost deepest : Nat) (m : Rig)
    (hrun : (submitted limits world callback action).run taskMeaning fuel =
      (.finished cost deepest, m))
    (hwrap : ∀ g, ((submitted limits world callback action).splice.history
      taskMeaning fuel).discards g < UInt32.size) :
    ∃ least flow, ∀ fuel, least ≤ fuel →
      act limits fuel ⟨0, callback⟩ action ⟨world, 0⟩ = some (flow, ⟨m.world, cost⟩) := by
  have c := Machine.course_of_drain hrun fun h => nomatch h
  obtain ⟨flow, m₁, h₁, h₂, i⟩ := interprets limits _ _ _ _ _ _ _ _ _ (Nat.lt_succ_self _) c
    (front_submitted limits world callback action hwrap)
  obtain ⟨least, hturn⟩ := i.result
  have hresult (fuel : Nat) (hle : least ≤ fuel) :
      act limits fuel ⟨0, callback⟩ action ⟨world, 0⟩ = some (flow, standingOf m₁) :=
    act_mono ((inTurn_singleton ..).symm.trans hturn) hle
  have next := i.next
  generalize hending : Ending.finished cost deepest = ending at next
  cases next with
  | finished hq =>
    obtain ⟨rfl, -⟩ := Ending.finished.inj hending
    exact ⟨least, flow, hresult⟩
  | dropped hq hl next =>
    rw [i.queue] at hq
    cases hq
  | performed hq hl hp next =>
    rw [i.queue] at hq
    cases hq
  | failed hq hl hp => cases hending

theorem run_refines_act_askTwice :
    (submitted {} answering .empty askTwice).run taskMeaning 9 =
        (.finished 3 1, ((submitted {} answering .empty askTwice).run taskMeaning 9).2) ∧
      (∀ g, ((submitted {} answering .empty askTwice).splice.history taskMeaning 9).discards g <
        UInt32.size) ∧
      ∃ least flow, ∀ fuel, least ≤ fuel →
        act {} fuel ⟨0, .empty⟩ askTwice ⟨answering, 0⟩ =
          some (flow, ⟨((submitted {} answering .empty askTwice).run taskMeaning 9).2.world, 3⟩) := by
  have hrun : (submitted {} answering .empty askTwice).run taskMeaning 9 =
      (.finished 3 1, ((submitted {} answering .empty askTwice).run taskMeaning 9).2) := rfl
  have hwrap : ∀ g, ((submitted {} answering .empty askTwice).splice.history
      taskMeaning 9).discards g < UInt32.size := by
    intro g
    refine Nat.lt_of_le_of_lt (History.discards_le_length g _) ?_
    decide +kernel
  exact ⟨hrun, hwrap, run_refines_act {} answering .empty askTwice 9 3 1 _ hrun hwrap⟩

/-- Each call pays for itself, and its second line is never come to. -/
example : (act {} 3 ⟨0, .empty⟩ askTwice ⟨answering, 0⟩).map (·.2.cost) = some 3 := rfl

end Trampoline.Command
