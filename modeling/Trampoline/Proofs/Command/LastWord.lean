import Trampoline.Proofs.Command.Replies

/-! The last word of a frame.

A line that can end its frame either has no stage that returns and so ends nothing, or
the walk that returns has a single source and comes to something that is heard for it:
a command, a `return`, or no source at all, which is heard as a failure. Of such a
careful line one outcome is heard when it ends its frame (`line_hears_once`): what its
walk leaves to be done is always one last action that speaks, or one more walk of the
same kind (`Tail`), and the induction is on how often the walk is taken over.

So a frame whose lines are careful hears exactly one outcome when it is ended, and none
when it is not; a frame with other lines hears several times the same one, or none
(`frame_hears`). A run says of each of its frames what the interpreter says of it
(`frame_hears_in_run`). -/
namespace Trampoline.Command

variable {who : String} {most fuel : Nat} {limits : Limits} {level : Level} {s s' : Standing}
  {flow : Flow} {flags : Flags} {action : Action standard} {actions : List (Action standard)}
  {starter : Source} {sources : List Source} {input : String} {before : List (Stage standard)}
  {top : Stage standard} {after : List (Stage standard)} {chain : Chain standard}

/-! ### What a line can come to -/

/-- Whether a walk from `top` on can end its frame. -/
def mayReturn : (top : Stage standard) → (after : List (Stage standard)) → Bool
  | top, [] => match top.executable with
    | some (.custom (.return _)) => true
    | _ => false
  | top, stage :: after =>
    (match top.redirect with
      | some (.custom .returnRun) => true
      | _ => false) || mayReturn stage after

/-- Whether a modifier makes at most one source of one. -/
def Modifier.isSingle : Modifier → Bool
  | .rename names => names.length ≤ 1
  | .silence => true
  | .filter _ => true

/-- Whether a walk from `top` on keeps a single source single, and what it comes to says something
for it. -/
def isDirect : (top : Stage standard) → (after : List (Stage standard)) → Bool
  | top, [] => match top.executable with
    | some (.custom (.return _)) => true
    | some (.custom _) => false
    | _ => true
  | top, stage :: after =>
    (match top.redirect with
      | some (.modifier m) => m.isSingle
      | _ => true) && isDirect stage after

/-- Lines that, if they end their frame, say so once. -/
def isCareful (chain : Chain standard) : Bool :=
  !mayReturn chain.top chain.after || isDirect chain.top chain.after

/-! ### What cannot end the frame -/

theorem scope_finish (level : Level) (chain : Chain standard) (sources : List Source)
    (flags : Flags) (s : Standing) : (finish level chain sources flags s).scope = .same := by
  unfold finish
  split
  · rfl
  · split
    · rfl
    · rfl
    · rfl

theorem scope_descend (limits : Limits) (level : Level) (starter : Source) (input : String)
    (before : List (Stage standard)) (top : Stage standard) (after : List (Stage standard))
    (sources : List Source) (flags : Flags) (s : Standing) :
    (descend limits level starter input before top after sources flags s).scope = .same := by
  induction after generalizing before top sources flags s with
  | nil => exact scope_finish ..
  | cons stage after ih =>
    match htop : top.redirect with
    | none =>
      rw [descend, htop]
    | some (.custom .returnRun) =>
      rw [descend, htop]
      dsimp only
      unfold takeOver
      split
      · rfl
      · rfl
    | some (.modifier modifier) =>
      rw [descend_modifier limits level starter input before stage after sources s htop rfl,
        Standing.pay]
      split
      · unfold walkOn
        split
        · rfl
        · exact scope_finish ..
        · exact ih ..
      · rfl

theorem ends_finish {chain : Chain standard} (h : mayReturn chain.top [] = false) :
    (finish level chain sources flags s).ends = 0 := by
  unfold mayReturn at h
  unfold finish
  split
  · rfl
  · match hx : chain.top.executable with
    | none => rfl
    | some (.command c) => rfl
    | some (.custom (.function id arguments)) => exact Nat.mul_zero _
    | some (.custom (.trigger id)) => exact Nat.mul_zero _
    | some (.custom (.return value)) =>
      rw [hx] at h
      cases h

theorem ends_descend (h : mayReturn top after = false) :
    (descend limits level starter input before top after sources flags s).ends = 0 := by
  induction after generalizing before top sources flags s with
  | nil => exact ends_finish h
  | cons stage after ih =>
    obtain ⟨hfirst, hrest⟩ := Bool.or_eq_false_iff.mp h
    match htop : top.redirect with
    | none =>
      rw [descend, htop]
    | some (.custom .returnRun) =>
      rw [htop] at hfirst
      cases hfirst
    | some (.modifier modifier) =>
      rw [descend_modifier limits level starter input before stage after sources s htop rfl,
        Standing.pay]
      split
      · unfold walkOn
        split
        · rfl
        · rfl
        · exact ih hrest
      · rfl

theorem execute_leaves (limits : Limits) (level : Level) (input : String) (verb : Verb)
    (flags : Flags) (source : Source) (s : Standing) :
    (upshot limits level (.execute input verb flags source) s).items = [] ∧
      (upshot limits level (.execute input verb flags source) s).ends = 0 := by
  unfold upshot Standing.within Standing.pay
  dsimp only
  split
  · exact ⟨rfl, rfl⟩
  · exact ⟨rfl, rfl⟩

/-- What is done apart from a frame does not end it. -/
theorem act_apart (ha : isApart action) (h : act limits fuel level action s = some (flow, s')) :
    flow = .onward := by
  cases fuel with
  | zero => cases h
  | succ fuel =>
    obtain ⟨hf, items, hitems, rfl⟩ := act_cases h
    refine flow_eq_onward_iff.mpr ?_
    cases action with
    | walk chain starter sources flags => cases ha
    | fallthrough => cases ha
    | isolated body source => exact ⟨rfl, .inr ⟨_, rfl⟩⟩
    | execute input verb flags source =>
      obtain ⟨hnone, hends⟩ := execute_leaves limits level input verb flags source s
      rw [hnone] at hitems
      cases hitems
      exact ⟨hends, .inl rfl⟩
    | call body returns shared source =>
      cases shared with
      | true => cases ha
      | false =>
        rw [upshot_call] at hf ⊢
        rw [pay_of_no_fault hf]
        exact ⟨rfl, .inr ⟨_, rfl⟩⟩

theorem inTurn_apart (hapart : ∀ a ∈ actions, isApart a)
    (h : inTurn (act limits fuel level) actions s = some (flow, s')) : flow = .onward := by
  induction actions generalizing s with
  | nil =>
    cases h
    rfl
  | cons a rest ih =>
    obtain ⟨hfirst, hrest⟩ := List.forall_mem_cons.mp hapart
    rw [inTurn] at h
    cases hact : act limits fuel level a s with
    | none =>
      rw [hact] at h
      cases h
    | some result =>
      obtain ⟨first, s₁⟩ := result
      cases act_apart hfirst hact
      rw [hact] at h
      exact ih hrest h

/-- A plain walk ends its frame itself or not at all. -/
theorem ends_of_ended (hforks : limits.forks ≤ most) (hmost : 1 ≤ most)
    (hp : Private who most level.returns (.walk chain starter sources flags))
    (hplain : flags.returning = false)
    (h : act limits (fuel + 1) level (.walk chain starter sources flags) s = some (.ended, s')) :
    (upshot limits level (.walk chain starter sources flags) s).ends ≠ 0 := by
  intro hends
  obtain ⟨hf, items, hitems, hflow⟩ := act_cases h
  have speaks := upshot_speaks hforks hmost hp hf
  have hquiet := (speaks.quiet (by rw [isPlain, hplain]; rfl) hends).2
  have hscope : (upshot limits level (.walk chain starter sources flags) s).scope = .same :=
    scope_descend ..
  have honward := inTurn_apart (fun a ha => (hquiet a ha).2 hscope) hitems
  rw [flow_eq_onward_iff.mpr ⟨hends, .inl honward⟩] at hflow
  cases hflow

/-! ### The tail of a direct walk -/

/-- Between `s` and `s'` a listener hears one outcome, as often as the frame's callback names it. -/
def HearsOnce (who : String) (level : Level) (s s' : Standing) : Prop :=
  ∃ outcome, s'.heardBy who =
    s.heardBy who ++ List.replicate (level.returns.listeners.count who) outcome

theorem HearsOnce.of_heardBy {s₁ : Standing} (h : HearsOnce who level s₁ s')
    (hs : s₁.heardBy who = s.heardBy who) : HearsOnce who level s s' := by
  rw [HearsOnce, hs] at h
  exact h

/-- An action that speaks has the last word. -/
theorem hearsOnce_of_spoken (hforks : limits.forks ≤ most) (hmost : 1 ≤ most)
    (hp : Private who most level.returns action)
    (hspoken : (upshot limits level action s).spoken action = 1)
    (h : act limits fuel level action s = some (flow, s')) : HearsOnce who level s s' := by
  cases fuel with
  | zero => cases h
  | succ fuel =>
    obtain ⟨hf, items, hitems, -⟩ := act_cases h
    have speaks := upshot_speaks hforks hmost hp hf
    rw [speaks.last (by rw [hspoken]; exact Nat.one_ne_zero)] at hitems
    cases hitems
    have hheard := speaks.heard
    rw [hspoken, Nat.mul_one] at hheard
    exact hheard

/-- What a walk that is to return leaves to be done, if its chain is direct. -/
inductive Tail : Upshot → Prop where
  | said {u : Upshot} (hitems : u.items = []) (hends : u.ends = 1) : Tail u
  | left {u : Upshot} {a : Action standard} (hitems : u.items = [a])
      (ha : a = .fallthrough ∨ ∃ input verb flags source,
        a = .execute input verb flags source ∧ flags.returning) : Tail u
  | again {u : Upshot} {chain : Chain standard} {starter : Source} {sources : List Source}
      {flags : Flags} (hitems : u.items = [.walk chain starter sources flags])
      (hr : flags.returning) (hlength : sources.length ≤ 1)
      (hdirect : isDirect chain.top chain.after) : Tail u

/-- A modifier that keeps a single source single is not stopped by the fork limit. -/
theorem spreadOut_single {modifier : Modifier} {scene : Scene Host} (hforks : 1 ≤ limits.forks)
    (hlength : sources.length ≤ 1) (hmodifier : modifier.isSingle) :
    ∃ made, (spreadOut limits modifier starter sources flags scene).1 = .onward made ∧
      made.length ≤ 1 := by
  match sources with
  | [] => exact ⟨[], rfl, Nat.zero_le _⟩
  | [source] =>
    obtain ⟨produced, hproduced, hone⟩ : ∃ produced,
        modify modifier scene.host source = .ok produced ∧ produced.length ≤ 1 := by
      cases modifier with
      | rename names => exact ⟨_, rfl, by simpa [Modifier.isSingle] using hmodifier⟩
      | silence => exact ⟨_, rfl, Nat.le_refl 1⟩
      | filter condition =>
        refine ⟨_, rfl, ?_⟩
        split
        · exact Nat.le_refl 1
        · exact Nat.zero_le 1
    have hfits : ¬limits.forks < 0 + produced.length := by omega
    refine ⟨produced, ?_, hone⟩
    simp only [spreadOut, spread, hproduced, if_neg hfits, List.reverseAux_eq, List.append_nil,
      List.reverse_reverse]

theorem tail_runOut (flags : Flags) (s : Standing) (hends : flags.returning ∨ (0 : Nat) ≠ 0) :
    Tail { standing := s, items := if flags.returning then [.fallthrough] else [] } :=
  .left (if_pos (hends.resolve_right fun h => h rfl)) (.inl rfl)

theorem tail_finish (hlength : sources.length ≤ 1) (hdirect : isDirect chain.top [])
    (hf : (finish level chain sources flags s).fault = none)
    (hends : flags.returning ∨ (finish level chain sources flags s).ends ≠ 0) :
    Tail (finish level chain sources flags s) := by
  unfold finish at hf hends ⊢
  unfold isDirect at hdirect
  match sources with
  | [] => exact tail_runOut flags s hends
  | [source] =>
    simp only [List.isEmpty_cons, Bool.false_eq_true, if_false] at hf hends ⊢
    match hx : chain.top.executable with
    | none =>
      rw [hx] at hf
      cases hf
    | some (.custom (.return value)) => exact .said rfl rfl
    | some (.custom (.function id arguments)) =>
      rw [hx] at hdirect
      cases hdirect
    | some (.custom (.trigger id)) =>
      rw [hx] at hdirect
      cases hdirect
    | some (.command c) =>
      rw [hx] at hends
      have hr := hends.resolve_right fun h => h rfl
      refine .left (a := .execute chain.input c flags
        (source.reportingTo (source.callback.chain level.returns))) ?_ (.inr ⟨_, _, _, _, rfl, hr⟩)
      simp only [finalists, hr, if_true, List.take_succ_cons, List.take_zero, List.map_cons,
        List.map_nil]

theorem tail_descend (hforks : 1 ≤ limits.forks) (hlength : sources.length ≤ 1)
    (hdirect : isDirect top after)
    (hf : (descend limits level starter input before top after sources flags s).fault = none)
    (hends : flags.returning ∨
      (descend limits level starter input before top after sources flags s).ends ≠ 0) :
    Tail (descend limits level starter input before top after sources flags s) := by
  induction after generalizing before top sources flags s with
  | nil => exact tail_finish hlength hdirect hf hends
  | cons stage after ih =>
    obtain ⟨hmodifier, hdirect⟩ := Bool.and_eq_true_iff.mp hdirect
    obtain ⟨flags', hflags, hreturning⟩ : ∃ flags' : Flags,
        flags' = (if top.forks then { flags with forked := true } else flags) ∧
          flags'.returning = flags.returning := ⟨_, rfl, by split <;> rfl⟩
    rw [← hreturning] at hends
    cases htop : top.redirect with
    | none =>
      rw [descend, htop] at hf
      cases hf
    | some redirect =>
      cases redirect with
      | custom r =>
        cases r
        rw [descend, htop, ← hflags] at hends ⊢
        dsimp only at hends ⊢
        unfold takeOver at hends ⊢
        cases sources with
        | nil => exact tail_runOut flags' s hends
        | cons source rest => exact .again rfl rfl hlength hdirect
      | modifier modifier =>
        rw [descend_modifier limits level starter input before stage after sources s htop hflags]
          at hf hends ⊢
        have hpaid := pay_of_no_fault hf
        rw [hpaid] at hf hends ⊢
        rw [htop] at hmodifier
        obtain ⟨made, hmade, hone⟩ :
            ∃ made, (spreadOut limits modifier starter sources flags' s.scene).1 = .onward made ∧
              made.length ≤ 1 := spreadOut_single hforks hlength hmodifier
        unfold walkOn at hf hends ⊢
        dsimp only at hf hends ⊢
        rw [hmade] at hf hends ⊢
        cases made with
        | nil => exact tail_runOut flags' _ hends
        | cons source rest => exact ih hone hdirect hf hends

theorem Tail.within {activity : Activity} {run : Standing → Upshot}
    (h : Tail (run (s.write (·.openSection activity)))) : Tail (s.within activity run) := by
  cases h with
  | said hitems hends => exact .said hitems hends
  | left hitems ha => exact .left hitems ha
  | again hitems hr hlength hdirect => exact .again hitems hr hlength hdirect

/-- A direct walk that returns, or that ends the frame, is heard once. -/
theorem direct_hears_once (hforks : limits.forks ≤ most) (hsome : 1 ≤ limits.forks)
    (hp : Private who most level.returns (.walk chain starter sources flags))
    (hlength : sources.length ≤ 1) (hdirect : isDirect chain.top chain.after)
    (hends : flags.returning ∨ (upshot limits level (.walk chain starter sources flags) s).ends ≠ 0)
    (h : act limits fuel level (.walk chain starter sources flags) s = some (flow, s')) :
    HearsOnce who level s s' := by
  have hmost : 1 ≤ most := Nat.le_trans hsome hforks
  induction fuel generalizing chain starter sources flags s flow with
  | zero => cases h
  | succ fuel ih =>
    have hfuel := h
    obtain ⟨hf, items, hitems, rfl⟩ := act_cases h
    have speaks := upshot_speaks hforks hmost hp hf
    have hscope : (upshot limits level (.walk chain starter sources flags) s).scope = .same :=
      scope_descend ..
    have tail : Tail (upshot limits level (.walk chain starter sources flags) s) :=
      Tail.within (tail_descend hsome hlength hdirect hf hends)
    have hprivate := speaks.items
    rw [hscope] at hitems hprivate
    have hsilent : ∀ a, (upshot limits level (.walk chain starter sources flags) s).items = [a] →
        (upshot limits level (.walk chain starter sources flags) s).standing.heardBy who =
          s.heardBy who := by
      intro a ha
      obtain ⟨outcome, hheard⟩ := speaks.heard
      rw [Upshot.spoken, ha] at hheard
      simpa using hheard
    cases tail with
    | said hnone hended =>
      refine hearsOnce_of_spoken hforks hmost hp ?_ hfuel
      rw [Upshot.spoken, hnone, hended]
      rfl
    | left hone ha =>
      rename_i a
      refine HearsOnce.of_heardBy ?_ (hsilent a hone)
      rw [hone] at hitems hprivate
      rw [inTurn_singleton] at hitems
      refine hearsOnce_of_spoken hforks hmost (hprivate a List.mem_cons_self) ?_ hitems
      rcases ha with rfl | ⟨input, verb, flags', source, rfl, hr⟩
      · rfl
      · exact if_pos hr
    | again hone hr hlength' hdirect' =>
      refine HearsOnce.of_heardBy ?_ (hsilent _ hone)
      rw [hone] at hitems hprivate
      rw [inTurn_singleton] at hitems
      exact ih (hprivate _ List.mem_cons_self) hlength' hdirect' (.inl hr) hitems

/-! ### Frames -/

variable {source : Source} {lines : List (Chain standard)}

theorem private_line (hmost : 1 ≤ most) (hp : who ∉ source.callback.listeners) (returns : Callback)
    (chain : Chain standard) : Private who most returns (Dialect.line source chain) := by
  refine ⟨hmost, fun source' hsource => ?_⟩
  rw [List.mem_singleton.mp hsource]
  exact hp

/-- A careful line that ends its frame is heard once. -/
theorem line_hears_once (hsome : 1 ≤ limits.forks) (hp : who ∉ source.callback.listeners)
    (hcareful : isCareful chain)
    (h : act limits fuel level (Dialect.line source chain) s = some (.ended, s')) :
    HearsOnce who level s s' := by
  cases fuel with
  | zero => cases h
  | succ fuel =>
    have hprivate := private_line hsome hp level.returns chain
    have hends := ends_of_ended (Nat.le_refl _) hsome hprivate rfl h
    rcases (Bool.or_eq_true ..).mp hcareful with hmute | hdirect
    · exact absurd (ends_descend (by simpa using hmute)) hends
    · exact direct_hears_once (Nat.le_refl _) hsome hprivate (Nat.le_refl 1) hdirect (.inr hends) h

theorem lines_hear_once (hsome : 1 ≤ limits.forks) (hp : who ∉ source.callback.listeners)
    (hcareful : ∀ chain ∈ lines, isCareful chain)
    (h : inTurn (act limits fuel level) (lines.map (Dialect.line source)) s = some (.ended, s')) :
    HearsOnce who level s s' := by
  induction lines generalizing s with
  | nil => cases h
  | cons chain rest ih =>
    obtain ⟨hfirst, hrest⟩ := List.forall_mem_cons.mp hcareful
    rw [List.map_cons, inTurn] at h
    cases hact : act limits fuel level (Dialect.line source chain) s with
    | none =>
      rw [hact] at h
      cases h
    | some result =>
      obtain ⟨first, s₁⟩ := result
      rw [hact] at h
      cases first with
      | onward =>
        -- the line was not heard, as the frame went on
        obtain ⟨k, outcome, -, hheard, hquiet⟩ := act_hears (Nat.le_refl _) hsome
          (private_line hsome hp level.returns chain) hact
        rw [hquiet rfl rfl, Nat.mul_zero, List.replicate_zero, List.append_nil] at hheard
        exact (ih hrest h).of_heardBy hheard
      | ended =>
        cases h
        exact line_hears_once hsome hp hfirst hact

/-- What `who` hears of a frame with these lines: one outcome several times, or nothing; nothing
unless the frame was ended; and if it was, and all its lines are careful, exactly one. -/
def Replies (who : String) (limits : Limits) (lines : List (Chain standard)) (returns : Callback)
    (ended : Prop) (s s' : Standing) : Prop :=
  ∃ k outcome,
    s'.heardBy who = s.heardBy who ++ List.replicate (returns.listeners.count who * k) outcome ∧
    k ≤ max 1 limits.forks ∧ (¬ended → k = 0) ∧
    (ended → 1 ≤ limits.forks → (∀ chain ∈ lines, isCareful chain) → k = 1)

/-- Somebody whom the source of the lines does not report to hears only what the frame returns. -/
theorem frame_hears (hp : who ∉ source.callback.listeners)
    (h : inTurn (act limits fuel level) (lines.map (Dialect.line source)) s = some (flow, s')) :
    Replies who limits lines level.returns (flow = .ended) s s' := by
  have hforks : limits.forks ≤ max 1 limits.forks := Nat.le_max_right ..
  have hmost : 1 ≤ max 1 limits.forks := Nat.le_max_left ..
  by_cases hcareful : flow = .ended ∧ 1 ≤ limits.forks ∧ ∀ chain ∈ lines, isCareful chain
  · obtain ⟨rfl, hsome, hcareful⟩ := hcareful
    obtain ⟨outcome, hheard⟩ := lines_hear_once hsome hp hcareful h
    refine ⟨1, outcome, ?_, hmost, fun h => absurd rfl h, fun _ _ _ => rfl⟩
    rw [hheard, Nat.mul_one]
  · have hplain : ∀ a ∈ lines.map (Dialect.line source), isPlain a := by
      intro a ha
      obtain ⟨chain, -, rfl⟩ := List.mem_map.mp ha
      rfl
    have hone : ∀ a ∈ lines.map (Dialect.line source), ∀ s flow s',
        act limits fuel level a s = some (flow, s') →
          Heard who (max 1 limits.forks) (level.returns.listeners.count who) (isPlain a) s s' flow := by
      intro a ha s flow s' h
      obtain ⟨chain, -, rfl⟩ := List.mem_map.mp ha
      exact act_hears hforks hmost (private_line hmost hp level.returns chain) h
    obtain ⟨k, outcome, hk, hheard, hquiet⟩ := inTurn_hears hone (.inl hplain) h
    refine ⟨k, outcome, hheard, hk, fun hgoes => hquiet hplain ?_, fun hended hsome hlines =>
      absurd ⟨hended, hsome, hlines⟩ hcareful⟩
    cases flow with
    | onward => rfl
    | ended => exact absurd rfl hgoes

/-! ### Runs -/

variable {m m' m₂ : Rig} {h : RigHistory} {cost deepest : Nat} {frame : Frame}
  {e : Entry (Task (Action standard))} {es rest rest' : List (Entry (Task (Action standard)))}

theorem course_of_queue_nil {ending : Ending} (c : Machine.Course taskMeaning m h ending m')
    (hq : m.queue.toList = []) : m' = m ∧ h = [] := by
  cases c with
  | finished _ => exact ⟨rfl, rfl⟩
  | dropped hq' _ _ => cases hq.symm.trans hq'
  | performed hq' _ _ _ => cases hq.symm.trans hq'
  | failed hq' _ _ => cases hq.symm.trans hq'

/-- In a run that comes to its end, it is the same for every frame whose lines wait in front. -/
theorem frame_hears_in_run (c : Machine.Course taskMeaning m h (.finished cost deepest) m')
    (hf : Front limits frame m h es rest)
    (hlines : es.flatMap (·.action.items) = lines.map (Dialect.line source))
    (hp : who ∉ source.callback.listeners) :
    ∃ m₁ h₁ h₂, h = h₁ ++ h₂ ∧ m₁.queue.toList = rest ∧
      Machine.Course taskMeaning m₁ h₂ (.finished cost deepest) m' ∧
      Replies who limits lines frame.returns (h₁.discards frame.governor ≠ 0)
        (standingOf m) (standingOf m₁) := by
  obtain ⟨flow, m₁, h₁, h₂, i⟩ :=
    interprets limits _ m h m' cost deepest frame es rest (Nat.lt_succ_self _) c hf
  obtain ⟨fuel, hresult⟩ := i.result
  rw [hlines] at hresult
  have hended : flow = .ended ↔ h₁.discards frame.governor ≠ 0 := by
    rw [ne_eq, ← i.flow]
    cases flow with
    | onward => exact ⟨fun h => (nomatch h), fun h => absurd rfl h⟩
    | ended => exact ⟨fun _ h => (nomatch h), fun _ => rfl⟩
  have hreplies := frame_hears hp hresult
  rw [hended] at hreplies
  exact ⟨m₁, h₁, h₂, i.history, i.queue, i.next, hreplies⟩

/-- Every call opens such a frame. -/
theorem call_hears_in_run {body : Body standard} {returns : Callback}
    (he : e.action = .act (.call body returns false source))
    (hx : Machine.perform taskMeaning (m.begin e rest) e = (none, m₂))
    (c : Machine.Course taskMeaning m₂ h (.finished cost deepest) m')
    (hf : Front limits e.frame m (m.turn taskMeaning e rest ++ h) (e :: es) rest')
    (hp : who ∉ source.callback.listeners) :
    ∃ m₁ h₁ h₂, h = h₁ ++ h₂ ∧ m₁.queue.toList = rest ∧
      Machine.Course taskMeaning m₁ h₂ (.finished cost deepest) m' ∧
      Replies who limits body.lines returns (h₁.discards m.governors.size ≠ 0)
        (standingOf m) (standingOf m₁) := by
  obtain ⟨hfault, -⟩ := perform_act he hx
  rw [show upshot (m.begin e rest).limits (levelOf e.frame) (.call body returns false source)
    (standingOf (m.begin e rest)) = _ from upshot_call ..] at hfault
  have hu := (upshot_call m.limits (levelOf e.frame) (standingOf m) body returns false source).trans
    (pay_of_no_fault hfault)
  have hcounts := hf.counts e.frame.governor
  rw [History.discards_append, ← Nat.add_assoc] at hcounts
  have hfront := front_items he hx hu (passage_act he hx hf.governor (by omega)) hf
  obtain ⟨m₁, h₁, h₂, hhistory, hqueue, next, hreplies⟩ :=
    frame_hears_in_run c hfront ((flatMap_entries ..).trans (Upshot.flatMap_tasks _)) hp
  refine ⟨m₁, h₁, h₂, hhistory, hqueue, next, ?_⟩
  obtain ⟨k, outcome, hheard, hfacts⟩ := hreplies
  refine ⟨k, outcome, hheard.trans (congrArg (· ++ _) ?_), hfacts⟩
  rw [standing_act he hx, hu]
  exact heardBy_congr (Journal.heard_trace ..)

/-- A command that is submitted is the only line of its frame. -/
theorem command_hears_in_run (limits : Limits) (world : Scene Host) (callback : Callback)
    (chain : Chain standard) (source : Source) (fuel cost deepest : Nat) (m : Rig)
    (hrun : (submitted limits world callback (.command chain source)).run taskMeaning fuel =
      (.finished cost deepest, m))
    (hwrap : ∀ g, ((submitted limits world callback (.command chain source)).splice.history
      taskMeaning fuel).discards g < UInt32.size)
    (hp : who ∉ source.callback.listeners) :
    Replies who limits [chain] callback
      (((submitted limits world callback (.command chain source)).splice.history
        taskMeaning fuel).discards 0 ≠ 0) ⟨world, 0⟩ (standingOf m) := by
  have c := Machine.course_of_drain hrun fun h => (nomatch h)
  have hline : [Action.command chain source] = [chain].map (Dialect.line source) := rfl
  obtain ⟨m₁, h₁, h₂, hhistory, hqueue, next, hreplies⟩ := frame_hears_in_run c
    (front_submitted limits world callback (.command chain source) hwrap) hline hp
  obtain ⟨hm, hnone⟩ := course_of_queue_nil next hqueue
  rw [hhistory, hnone, List.append_nil, hm]
  exact hreplies

/-- A line whose walk returns for two sources. -/
def giveTwice : Chain standard :=
  ⟨"return run execute as a,b run return 1", [],
    { input := "return run execute as a,b run return 1", redirect := some (.custom .returnRun) },
    [{ input := "as a,b", redirect := some (.modifier (.rename ["a", "b"])), forks := true },
      { input := "return 1", executable := some (.custom (.return (some 1))) }]⟩

/-- What the caller hears of the line, and how often the frame was ended. -/
def submitTwice (limits : Limits) : List Outcome × Nat :=
  let m := submitted limits ⟨{}, {}⟩ (.one "root")
    (.command giveTwice { name := "console", permission := 4, callback := .empty })
  ((standingOf (m.run taskMeaning 5).2).heardBy "root", (m.splice.history taskMeaning 5).discards 0)

/-- The line is not careful: its frame hears the outcome once for each source. -/
example : isCareful giveTwice = false ∧ submitTwice {} = ([.ok 1, .ok 1], 3) := ⟨rfl, rfl⟩

/-- If two sources are too many, the frame is ended and hears nothing. -/
example : submitTwice { forks := 1 } = ([], 1) := rfl

end Trampoline.Command
