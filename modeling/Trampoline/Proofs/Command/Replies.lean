import Trampoline.Proofs.Journal
import Trampoline.Proofs.Command.Budget
import Trampoline.Proofs.Command.Growth
import Trampoline.Proofs.Command.Interpreter

/-! What a frame hears.

A listener that only a frame's callback names is told what the frame returns and
nothing else (`Private`). It is told in the turn of one action, after which nothing is
left to be done in the frame: of a `return`, once for each source it is run for; of the
command at the end of a `return run`, or of the failure in its place (`upshot_speaks`).
So a frame never hears two different outcomes, and one that goes on hears none
(`act_hears`).

A frame that was ended may hear nothing: a `return run` says nothing if its walk is
stopped, if it comes to a trigger, or to a function that is missing or comes to its end
without returning. And it may hear one outcome several times, if it comes to a `return`
with several sources. -/
namespace Trampoline.Command

/-- The outcomes a listener heard, oldest first. -/
def Standing.heardBy (s : Standing) (who : String) : List Outcome :=
  (s.scene.journal.heard.filter fun x => x.1 == who).map Prod.snd

variable {who : String} {most : Nat} {limits : Limits} {level : Level} {s s' : Standing} {u : Upshot}

theorem heardBy_congr (h : s'.scene.journal.heard = s.scene.journal.heard) :
    s'.heardBy who = s.heardBy who := by
  rw [Standing.heardBy, h]
  rfl

theorem filter_listeners (who : String) (outcome : Outcome) (listeners : List String) :
    ((listeners.map (·, outcome)).filter fun x => x.1 == who).map Prod.snd =
      List.replicate (listeners.count who) outcome := by
  induction listeners with
  | nil => rfl
  | cons listener rest ih =>
    rw [List.map_cons, List.filter_cons, List.count_cons]
    by_cases h : listener == who
    · rw [if_pos h, if_pos h, List.map_cons, ih, List.replicate_succ]
    · rw [if_neg h, if_neg h, ih, Nat.add_zero]

/-- A listener hears an outcome as often as the callback names it. -/
theorem heardBy_hear (who : String) (s : Standing) (callback : Callback) (outcome : Outcome) :
    ({ s with scene := Audience.hear callback outcome s.scene } : Standing).heardBy who =
      s.heardBy who ++ List.replicate (callback.listeners.count who) outcome := by
  have hheard : (Audience.hear callback outcome s.scene).journal.heard =
      s.scene.journal.heard ++ callback.listeners.map (·, outcome) := Journal.heard_hear ..
  rw [Standing.heardBy, hheard, List.filter_append, List.map_append, filter_listeners]
  rfl

/-! ### One action -/

/-- Only the frame itself can have an action tell `who` something, and no walk has more than `most`
sources. -/
def Private (who : String) (most : Nat) (returns : Callback) : Action standard → Prop
  | .walk _ _ sources _ =>
    sources.length ≤ most ∧ ∀ source ∈ sources, who ∉ source.callback.listeners
  | .execute _ _ flags source =>
    source.callback.listeners.count who =
      if flags.returning then returns.listeners.count who else 0
  | .call _ returns' shared source =>
    who ∉ source.callback.listeners ∧
      if shared then returns' = returns else who ∉ returns'.listeners
  | .isolated _ source => who ∉ source.callback.listeners
  | .fallthrough => True

/-- Whether an action is not about what the frame returns. -/
def isPlain : Action standard → Bool
  | .walk _ _ _ flags => !flags.returning
  | .execute _ _ flags _ => !flags.returning
  | .call .. => true
  | .isolated .. => true
  | .fallthrough => false

/-- Whether an action surely leaves its frame going on. -/
def isApart : Action standard → Bool
  | .walk .. => false
  | .execute .. => true
  | .call _ _ shared _ => !shared
  | .isolated .. => true
  | .fallthrough => false

/-- A frame for items tells `who` what the present one does, or it tells nothing. -/
def Scope.Tells (who : String) (level : Level) : Scope → Prop
  | .same => True
  | .shared returns => returns = level.returns
  | .own returns => who ∉ returns.listeners

/-- How often an action itself lets the frame's callback hear an outcome. -/
def Upshot.spoken (u : Upshot) : Action standard → Nat
  | .walk .. => if u.items.isEmpty then u.ends else 0
  | .execute _ _ flags _ => if flags.returning then 1 else 0
  | .call .. => 0
  | .isolated .. => 0
  | .fallthrough => 1

/-- What an action lets `who` hear, and what it leaves to be said. -/
structure Speaks (who : String) (most : Nat) (level : Level) (plain : Bool) (s : Standing)
    (spoken : Nat) (u : Upshot) : Prop where
  heard : ∃ outcome, u.standing.heardBy who =
    s.heardBy who ++ List.replicate (level.returns.listeners.count who * spoken) outcome
  few : spoken ≤ most
  /-- After the last word nothing is left to be done. -/
  last : spoken ≠ 0 → u.items = []
  items : ∀ a ∈ u.items, Private who most (u.scope.level level).returns a
  one : (∀ a ∈ u.items, isPlain a) ∨ ∃ a, u.items = [a]
  /-- A plain action says nothing unless it ends the frame, and neither does what it leads to. -/
  quiet : plain → u.ends = 0 →
    spoken = 0 ∧ ∀ a ∈ u.items, isPlain a ∧ (u.scope = .same → isApart a)
  scope : u.scope.Tells who level

/-- What a walk or a part of it says. -/
abbrev WalkSpeaks (who : String) (most : Nat) (level : Level) (returning : Bool) (s : Standing)
    (u : Upshot) : Prop :=
  Speaks who most level (!returning) s (if u.items.isEmpty then u.ends else 0) u

variable {plain returning : Bool} {flags : Flags} {spoken : Nat}

theorem Speaks.of_heard (h : Speaks who most level plain s' spoken u)
    (hs : s'.scene.journal.heard = s.scene.journal.heard) : Speaks who most level plain s spoken u :=
  ⟨heardBy_congr hs ▸ h.heard, h.few, h.last, h.items, h.one, h.quiet, h.scope⟩

theorem speaks_of_no_items {fault : Option Fault} {ends : Nat}
    (hheard : ∃ outcome, s'.heardBy who =
      s.heardBy who ++ List.replicate (level.returns.listeners.count who * spoken) outcome)
    (hfew : spoken ≤ most) (hquiet : plain → ends = 0 → spoken = 0) :
    Speaks who most level plain s spoken { fault, standing := s', ends } :=
  ⟨hheard, hfew, fun _ => rfl, fun _ ha => absurd ha List.not_mem_nil,
    .inl fun _ ha => absurd ha List.not_mem_nil,
    fun hp he => ⟨hquiet hp he, fun _ ha => absurd ha List.not_mem_nil⟩, trivial⟩

theorem heardBy_append_none (hs : s'.scene.journal.heard = s.scene.journal.heard) (count : Nat) :
    s'.heardBy who = s.heardBy who ++ List.replicate (count * 0) .failure := by
  rw [Nat.mul_zero, List.replicate_zero, List.append_nil]
  exact heardBy_congr hs

/-- Nothing is said and nothing follows. -/
theorem speaks_nothing (fault : Option Fault) (hs : s'.scene.journal.heard = s.scene.journal.heard) :
    Speaks who most level plain s 0 { fault, standing := s' } :=
  speaks_of_no_items ⟨.failure, heardBy_append_none hs _⟩ (Nat.zero_le _) fun _ _ => rfl

/-- A walk that leaves the word to its items: it does not end the frame itself, or some follow. -/
theorem walkSpeaks_items {items : List (Action standard)} {ends : Nat} {atOnce : Bool}
    (hs : s'.scene.journal.heard = s.scene.journal.heard) (hn : ends = 0 ∨ items ≠ [])
    (hitems : ∀ a ∈ items, Private who most level.returns a)
    (hone : (∀ a ∈ items, isPlain a) ∨ ∃ a, items = [a])
    (hplain : returning = false → ends = 0 → ∀ a ∈ items, isPlain a ∧ isApart a) :
    WalkSpeaks who most level returning s { standing := s', ends, items, atOnce } := by
  have hspoken : (if items.isEmpty then ends else 0) = 0 := by
    rcases hn with rfl | hne
    · exact ite_self 0
    · rw [if_neg (by simpa using hne)]
  unfold WalkSpeaks
  rw [hspoken]
  refine ⟨⟨.failure, heardBy_append_none hs _⟩, Nat.zero_le _, fun h => absurd rfl h, hitems, hone,
    fun hp he => ⟨rfl, fun a ha => ?_⟩, trivial⟩
  obtain ⟨hplain, hapart⟩ := hplain (by simpa using hp) he a ha
  exact ⟨hplain, fun _ => hapart⟩

theorem speaks_runOut (flags : Flags) :
    WalkSpeaks who most level flags.returning s
      { standing := s, items := if flags.returning then [.fallthrough] else [] } := by
  cases hr : flags.returning with
  | false => exact speaks_nothing none rfl
  | true =>
    refine walkSpeaks_items rfl (.inl rfl) (fun a ha => ?_) (.inr ⟨_, rfl⟩) fun hplain => nomatch hplain
    rw [List.mem_singleton.mp ha]
    trivial

/-! ### The last stage -/

/-- What an executor may leave to be done for its sources. -/
def Leaves (who : String) (most : Nat) (returns : Callback) (returning : Bool)
    (items : List (Action standard)) : Prop :=
  ∀ a ∈ items, Private who most returns a ∧ isPlain a ∧ (returning = false → isApart a)

theorem itemOf_speaks {id : String} {arguments : Option Record} {source : Source}
    {item : Body standard → Action standard} {returns : Callback} {scene : Scene Host}
    (hitem : ∀ body, Leaves who most returns returning [item body]) :
    (itemOf id arguments source flags item scene).2.journal.heard = scene.journal.heard ∧
      Leaves who most returns returning (itemOf id arguments source flags item scene).1 := by
  have hjournal : (bodyOf id arguments scene).2.journal = scene.journal := rfl
  unfold itemOf
  generalize bodyOf id arguments scene = found at hjournal
  obtain ⟨result, scene'⟩ := found
  cases result with
  | ok body =>
    exact ⟨congrArg Journal.heard hjournal, hitem body⟩
  | error e =>
    exact ⟨(Journal.heard_handleError ..).trans (congrArg Journal.heard hjournal),
      fun a ha => absurd ha List.not_mem_nil⟩

/-- `return` tells the frame's callback for each source, and queues nothing. -/
theorem carryOutAll_return (level : Level) (flags : Flags) (value : Option Int32)
    (sources : List Source) (scene : Scene Host) (cost : Nat)
    (hp : ∀ source ∈ sources, who ∉ source.callback.listeners) :
    (carryOutAll level (.return value) flags sources scene).1 = [] ∧
      (⟨(carryOutAll level (.return value) flags sources scene).2, cost⟩ : Standing).heardBy who =
        (⟨scene, cost⟩ : Standing).heardBy who ++
          List.replicate (level.returns.listeners.count who * sources.length) (outcomeOf value) := by
  induction sources generalizing scene with
  | nil => exact ⟨rfl, (List.append_nil _).symm⟩
  | cons source rest ih =>
    obtain ⟨hfirst, hrest⟩ := List.forall_mem_cons.mp hp
    obtain ⟨hitems, hheard⟩ := ih (carryOut level (.return value) flags source scene).2 hrest
    refine ⟨hitems, hheard.trans ?_⟩
    -- first the source's own callback hears it, then the frame's
    have hsource := heardBy_hear who ⟨scene, cost⟩ source.callback (outcomeOf value)
    have hframe := heardBy_hear who ⟨Audience.hear source.callback (outcomeOf value) scene, cost⟩
      level.returns (outcomeOf value)
    have hboth : (⟨(carryOut level (.return value) flags source scene).2, cost⟩ : Standing).heardBy
        who = (⟨scene, cost⟩ : Standing).heardBy who ++
          List.replicate (level.returns.listeners.count who) (outcomeOf value) := by
      refine hframe.trans (congrArg (· ++ _) (hsource.trans ?_))
      rw [List.count_eq_zero_of_not_mem hfirst, List.replicate_zero, List.append_nil]
    rw [hboth, List.append_assoc, List.replicate_append_replicate, List.length_cons, Nat.mul_succ,
      Nat.add_comm]

theorem carryOutAll_items {e : Executor} {returns : Callback} {sources : List Source}
    (hone : ∀ source ∈ sources, ∀ scene,
      (carryOut level e flags source scene).2.journal.heard = scene.journal.heard ∧
        Leaves who most returns returning (carryOut level e flags source scene).1)
    (scene : Scene Host) :
    (carryOutAll level e flags sources scene).2.journal.heard = scene.journal.heard ∧
      Leaves who most returns returning (carryOutAll level e flags sources scene).1 := by
  induction sources generalizing scene with
  | nil => exact ⟨rfl, fun a ha => absurd ha List.not_mem_nil⟩
  | cons source rest ih =>
    obtain ⟨hfirst, hrest⟩ := List.forall_mem_cons.mp hone
    obtain ⟨hheard, hitems⟩ := hfirst scene
    obtain ⟨hheard', hitems'⟩ := ih hrest (carryOut level e flags source scene).2
    refine ⟨hheard'.trans hheard, fun a ha => ?_⟩
    rcases List.mem_append.mp ha with ha | ha
    · exact hitems a ha
    · exact hitems' a ha

/-- Calls and triggers say nothing themselves. -/
theorem carryOut_speaks {e : Executor} (he : e.ends = 0) {source : Source}
    (hp : who ∉ source.callback.listeners) (scene : Scene Host) :
    (carryOut level e flags source scene).2.journal.heard = scene.journal.heard ∧
      Leaves who most level.returns flags.returning (carryOut level e flags source scene).1 := by
  cases e with
  | «return» value => cases he
  | function id arguments =>
    refine itemOf_speaks fun body a ha => ?_
    rw [List.mem_singleton.mp ha]
    cases flags.returning with
    | true => exact ⟨⟨hp, rfl⟩, rfl, fun h => nomatch h⟩
    | false => exact ⟨⟨hp, hp⟩, rfl, fun _ => rfl⟩
  | trigger id =>
    refine itemOf_speaks fun body a ha => ?_
    rw [List.mem_singleton.mp ha]
    exact ⟨hp, rfl, fun _ => rfl⟩

/-- The command of the last stage: its outcome is the frame's if the chain is to return. -/
theorem executes_speaks {input : String} {c : Verb} {sources : List Source} (hsome : sources ≠ [])
    (hp : ∀ source ∈ sources, who ∉ source.callback.listeners) :
    WalkSpeaks who most level flags.returning s
      { standing := s
        items := (finalists level.returns flags sources).map (.execute input c flags) } := by
  cases hr : flags.returning with
  | false =>
    have hall : ∀ a ∈ sources.map (Action.execute (V := standard) input c flags),
        Private who most level.returns a ∧ isPlain a ∧ isApart a := by
      intro a ha
      obtain ⟨source, hs, rfl⟩ := List.mem_map.mp ha
      refine ⟨?_, by simp only [isPlain, hr, Bool.not_false], rfl⟩
      simp only [Private, hr, Bool.false_eq_true, if_false]
      exact List.count_eq_zero_of_not_mem (hp source hs)
    rw [finalists, hr, if_neg Bool.false_ne_true]
    exact walkSpeaks_items rfl (.inl rfl) (fun a ha => (hall a ha).1)
      (.inl fun a ha => (hall a ha).2.1) fun _ _ a ha => (hall a ha).2
  | true =>
    obtain ⟨source, rest, rfl⟩ := List.exists_cons_of_ne_nil hsome
    rw [finalists, hr, if_pos rfl]
    refine walkSpeaks_items rfl (.inl rfl) (fun a ha => ?_) (.inr ⟨_, rfl⟩) fun hplain => nomatch hplain
    rw [List.mem_singleton.mp ha]
    simp only [Private, hr, if_true]
    change (source.callback.listeners ++ level.returns.listeners).count who = _
    rw [List.count_append, List.count_eq_zero_of_not_mem (hp source List.mem_cons_self),
      Nat.zero_add]

theorem finish_speaks {chain : Chain standard} {sources : List Source} (hlength : sources.length ≤ most)
    (hp : ∀ source ∈ sources, who ∉ source.callback.listeners) :
    WalkSpeaks who most level flags.returning s (finish level chain sources flags s) := by
  unfold finish
  by_cases hempty : sources.isEmpty
  · rw [if_pos hempty]
    exact speaks_runOut flags
  · rw [if_neg hempty]
    match chain.top.executable with
    | none => exact speaks_nothing _ rfl
    | some (.custom e) =>
      by_cases he : e.ends = 0
      · obtain ⟨hheard, hitems⟩ := carryOutAll_items
          (fun source hs => carryOut_speaks he (hp source hs)) s.scene
        have hends : sources.length * e.ends = 0 := by rw [he, Nat.mul_zero]
        exact walkSpeaks_items hheard (.inl hends) (fun a ha => (hitems a ha).1)
          (.inl fun a ha => (hitems a ha).2.1)
          fun hr _ a ha => ⟨(hitems a ha).2.1, (hitems a ha).2.2 hr⟩
      · cases e with
        | «return» value =>
          obtain ⟨hitems, hheard⟩ := carryOutAll_return level flags value sources s.scene s.cost hp
          have hends : sources.length * (Executor.return value).ends = sources.length :=
            Nat.mul_one _
          unfold WalkSpeaks
          simp only [hitems, hends, List.isEmpty_nil, if_true]
          exact ⟨⟨_, hheard⟩, hlength, fun _ => rfl, fun _ ha => absurd ha List.not_mem_nil,
            .inl fun _ ha => absurd ha List.not_mem_nil,
            fun _ h => ⟨h, fun _ ha => absurd ha List.not_mem_nil⟩, trivial⟩
        | function id arguments => exact absurd rfl he
        | trigger id => exact absurd rfl he
    | some (.command c) => exact executes_speaks (by simpa using hempty) hp

/-! ### The walk -/

/-- A modifier leaves a source its callback. -/
theorem callback_modify {modifier : Modifier} {host : Host} {source made : Source}
    {produced : List Source} (h : modify modifier host source = .ok produced)
    (hm : made ∈ produced) : made.callback = source.callback := by
  cases modifier with
  | rename names =>
    cases h
    obtain ⟨name, -, rfl⟩ := List.mem_map.mp hm
    rfl
  | silence =>
    cases h
    rw [List.mem_singleton.mp hm]
    rfl
  | filter condition =>
    cases h
    split at hm
    · rw [List.mem_singleton.mp hm]
    · exact absurd hm List.not_mem_nil

theorem callback_spread {modify : Source → Except CommandError (List Source)} {limit : Nat}
    {starter : Source} {sources made result : List Source} {count : Nat} {j : Journal}
    (hmodify : ∀ source ∈ sources, ∀ produced, modify source = .ok produced →
      ∀ m ∈ produced, m.callback = source.callback)
    (h : (spread modify limit flags starter sources made count j).1 = .onward result) :
    ∀ m ∈ result, m ∈ made ∨ ∃ source ∈ sources, m.callback = source.callback := by
  induction sources generalizing made count j with
  | nil =>
    cases h
    exact fun m hm => .inl (List.mem_reverse.mp hm)
  | cons source rest ih =>
    obtain ⟨hfirst, hrest⟩ := List.forall_mem_cons.mp hmodify
    rw [spread] at h
    have hwiden {made' : List Source} {count' : Nat} {j' : Journal}
        (h : (spread modify limit flags starter rest made' count' j').1 = .onward result) :
        ∀ m ∈ result, m ∈ made' ∨ ∃ source' ∈ source :: rest, m.callback = source'.callback := by
      intro m hm
      rcases ih hrest h m hm with hm | ⟨source', hs, hm⟩
      · exact .inl hm
      · exact .inr ⟨source', List.mem_cons_of_mem _ hs, hm⟩
    split at h
    · next produced hproduced =>
      split at h
      · cases h
      · intro m hm
        rcases hwiden h m hm with hm | hm
        · rw [List.reverseAux_eq, List.mem_append, List.mem_reverse] at hm
          rcases hm with hm | hm
          · exact .inr ⟨source, List.mem_cons_self, hfirst produced hproduced m hm⟩
          · exact .inl hm
        · exact .inr hm
    · split at h
      · exact hwiden h
      · cases h

theorem private_spreadOut {modifier : Modifier} {starter : Source} {sources result : List Source}
    {scene : Scene Host} (hp : ∀ source ∈ sources, who ∉ source.callback.listeners)
    (h : (spreadOut limits modifier starter sources flags scene).1 = .onward result) :
    ∀ source ∈ result, who ∉ source.callback.listeners := by
  intro m hm
  unfold spreadOut at h
  rcases callback_spread (fun source _ produced hproduced m hm =>
    callback_modify hproduced hm) h m hm with hm | ⟨source, hs, hm⟩
  · exact absurd hm List.not_mem_nil
  · rw [hm]
    exact hp source hs

theorem takeOver_speaks {starter : Source} {sources : List Source} {chain : Chain standard}
    (hlength : sources.length ≤ most)
    (hp : ∀ source ∈ sources, who ∉ source.callback.listeners) :
    WalkSpeaks who most level flags.returning s (takeOver starter sources chain flags s) := by
  unfold takeOver
  by_cases hempty : sources.isEmpty
  · rw [if_pos hempty]
    exact speaks_runOut flags
  · rw [if_neg hempty]
    refine walkSpeaks_items rfl (.inr (List.cons_ne_nil _ _)) (fun a ha => ?_) (.inr ⟨_, rfl⟩)
      fun _ hends => nomatch hends
    rw [List.mem_singleton.mp ha]
    exact ⟨hlength, hp⟩

/-- What is said after a unit was charged. -/
theorem speaks_pay {next : Standing → Upshot}
    (h : WalkSpeaks who most level returning ⟨s.scene, s.cost + 1⟩ (next ⟨s.scene, s.cost + 1⟩)) :
    WalkSpeaks who most level returning s (s.pay limits next) := by
  unfold Standing.pay
  by_cases hroom : s.cost < limits.commands
  · rw [if_pos hroom]
    exact h.of_heard rfl
  · rw [if_neg hroom]
    exact speaks_nothing _ rfl

theorem descend_speaks {starter : Source} {input : String} {before : List (Stage standard)}
    {top : Stage standard} {after : List (Stage standard)} {sources : List Source}
    (hforks : limits.forks ≤ most) (hlength : sources.length ≤ most)
    (hp : ∀ source ∈ sources, who ∉ source.callback.listeners) :
    WalkSpeaks who most level flags.returning s
      (descend limits level starter input before top after sources flags s) := by
  induction after generalizing before top sources flags s with
  | nil => exact finish_speaks hlength hp
  | cons stage after ih =>
    obtain ⟨flags', hflags, hreturning⟩ : ∃ flags' : Flags,
        flags' = (if top.forks then { flags with forked := true } else flags) ∧
          flags'.returning = flags.returning := ⟨_, rfl, by split <;> rfl⟩
    rw [← hreturning]
    cases htop : top.redirect with
    | none =>
      rw [descend, htop]
      exact speaks_nothing _ rfl
    | some redirect =>
      cases redirect with
      | custom r =>
        rw [descend, htop, ← hflags]
        exact takeOver_speaks hlength hp
      | modifier modifier =>
        rw [descend_modifier limits level starter input before stage after sources s htop hflags]
        refine speaks_pay ?_
        have hheard : (spreadOut limits modifier starter sources flags' s.scene).2.journal.heard =
            s.scene.journal.heard := Journal.heard_spread ..
        unfold walkOn
        cases hmade : (spreadOut limits modifier starter sources flags' s.scene).1 with
        | stopped => exact speaks_nothing none hheard
        | onward made =>
          have hmany := Nat.le_trans (length_spreadOut hmade) hforks
          have hprivate := private_spreadOut hp hmade
          cases made with
          | nil => exact (speaks_runOut flags').of_heard hheard
          | cons source rest => exact (ih hmany hprivate).of_heard hheard

/-! ### Every action -/

theorem heard_perform (verb : Verb) (source : Source) (scene : Scene Host) :
    (perform verb source scene).2.journal.heard = scene.journal.heard := by
  cases verb <;> rfl

/-- The source of a command hears one outcome. -/
theorem heardBy_settle (who : String) (depth : Nat) (input : String) (verb : Verb) (flags : Flags)
    (source : Source) (s : Standing) :
    ∃ outcome, ({ s with scene := dialect.settle depth input verb flags source s.scene } :
        Standing).heardBy who =
      s.heardBy who ++ List.replicate (source.callback.listeners.count who) outcome := by
  unfold Dialect.settle
  dsimp only
  cases hx : dialect.perform verb source (s.scene.write (·.trace (.command depth input))) with
  | mk result scene =>
    have hbefore : scene.journal.heard = s.scene.journal.heard := by
      have h := heard_perform verb source (s.scene.write (·.trace (.command depth input)))
      rw [show perform verb source _ = (result, scene) from hx] at h
      exact h.trans (Journal.heard_trace ..)
    have hhear (outcome : Outcome) : (⟨scene.write (·.hear source.callback outcome), s.cost⟩ :
        Standing).heardBy who =
          s.heardBy who ++ List.replicate (source.callback.listeners.count who) outcome := by
      have hbefore : (⟨scene, s.cost⟩ : Standing).heardBy who = s.heardBy who := heardBy_congr hbefore
      rw [← hbefore]
      exact heardBy_hear who ⟨scene, s.cost⟩ source.callback outcome
    cases result with
    | ok n => exact ⟨.ok n, (heardBy_congr (Journal.heard_trace ..)).trans (hhear (.ok n))⟩
    | error e =>
      exact ⟨.failure, (heardBy_congr (Journal.heard_handleError ..)).trans (hhear .failure)⟩

theorem speaks_within (activity : Activity) (run : Standing → Upshot)
    (h : Speaks who most level plain (s.write (·.openSection activity)) spoken
      (run (s.write (·.openSection activity)))) :
    Speaks who most level plain s spoken (s.within activity run) := by
  have hopened := h.of_heard (s := s) (Journal.heard_openSection ..)
  obtain ⟨outcome, hheard⟩ := hopened.heard
  refine ⟨⟨outcome, ?_⟩, hopened.few, hopened.last, hopened.items, hopened.one, hopened.quiet,
    hopened.scope⟩
  rw [← hheard]
  exact heardBy_congr (Journal.heard_closeSection ..)

theorem pay_of_no_fault {next : Standing → Upshot} (hf : (s.pay limits next).fault = none) :
    s.pay limits next = next { s with cost := s.cost + 1 } := by
  unfold Standing.pay at hf ⊢
  split
  · rfl
  · next hroom =>
    rw [if_neg hroom] at hf
    cases hf

theorem execute_speaks {input : String} {verb : Verb} {source : Source} (hmost : 1 ≤ most)
    (hp : source.callback.listeners.count who =
      if flags.returning then level.returns.listeners.count who else 0) :
    Speaks who most level (!flags.returning) s (if flags.returning then 1 else 0)
      { standing :=
          { s with scene := dialect.settle level.depth input verb flags source s.scene } } := by
  obtain ⟨outcome, hheard⟩ := heardBy_settle who level.depth input verb flags source s
  rw [hp] at hheard
  refine speaks_of_no_items ⟨outcome, hheard.trans ?_⟩ ?_ fun hplain _ => ?_
  · cases flags.returning with
    | true => simp only [if_true, Nat.mul_one]
    | false => simp only [Bool.false_eq_true, if_false, Nat.mul_zero]
  · split
    · exact hmost
    · exact Nat.zero_le _
  · exact if_neg (by simpa using hplain)

theorem call_speaks {body : Body standard} {source : Source} {scope : Scope} (hmost : 1 ≤ most)
    (hp : who ∉ source.callback.listeners) (hscope : scope.Tells who level) (hown : scope ≠ .same)
    (hs : s'.scene.journal.heard = s.scene.journal.heard) :
    Speaks who most level true s 0
      { standing := s', scope, items := body.lines.map (Dialect.line source) } := by
  have hlines : ∀ a ∈ body.lines.map (Dialect.line source),
      Private who most (scope.level level).returns a ∧ isPlain a := by
    intro a ha
    obtain ⟨chain, -, rfl⟩ := List.mem_map.mp ha
    refine ⟨⟨hmost, fun source' hsource => ?_⟩, rfl⟩
    rw [List.mem_singleton.mp hsource]
    exact hp
  exact ⟨⟨.failure, heardBy_append_none hs _⟩, Nat.zero_le _, fun h => absurd rfl h,
    fun a ha => (hlines a ha).1, .inl fun a ha => (hlines a ha).2,
    fun _ _ => ⟨rfl, fun a ha => ⟨(hlines a ha).2, fun h => absurd h hown⟩⟩, hscope⟩

theorem upshot_call (limits : Limits) (level : Level) (s : Standing) (body : Body standard)
    (returns : Callback) (shared : Bool) (source : Source) :
    upshot limits level (.call body returns shared source) s = s.pay limits fun s =>
      { standing := s.write (·.trace (.call level.depth body.id body.lines.length))
        scope := if shared then .shared returns else .own returns
        items := body.lines.map (Dialect.line source) } := rfl

/-- What an action that does not fail says, and what it leaves to its items. -/
theorem upshot_speaks {action : Action standard} (hforks : limits.forks ≤ most) (hmost : 1 ≤ most)
    (hp : Private who most level.returns action)
    (hf : (upshot limits level action s).fault = none) :
    Speaks who most level (isPlain action) s ((upshot limits level action s).spoken action)
      (upshot limits level action s) := by
  cases action with
  | walk chain starter sources flags => exact speaks_within _ _ (descend_speaks hforks hp.1 hp.2)
  | execute input verb flags source =>
    refine speaks_within (.execute input) (fun s => s.pay limits fun s =>
      { standing :=
          { s with scene := dialect.settle level.depth input verb flags source s.scene } }) ?_
    rw [pay_of_no_fault hf]
    exact (execute_speaks hmost hp).of_heard rfl
  | call body returns shared source =>
    rw [upshot_call] at hf ⊢
    rw [pay_of_no_fault hf]
    cases shared with
    | true => exact call_speaks hmost hp.1 hp.2 (fun h => nomatch h) (Journal.heard_trace ..)
    | false => exact call_speaks hmost hp.1 hp.2 (fun h => nomatch h) (Journal.heard_trace ..)
  | isolated body source =>
    refine ⟨⟨.failure, heardBy_append_none rfl _⟩, Nat.zero_le _, fun h => absurd rfl h,
      fun a ha => ?_, .inr ⟨_, rfl⟩, fun _ _ => ⟨rfl, fun a ha => ?_⟩, hp⟩
    · rw [List.mem_singleton.mp ha]
      exact ⟨hp, rfl⟩
    · rw [List.mem_singleton.mp ha]
      exact ⟨rfl, fun h => nomatch h⟩
  | fallthrough =>
    refine speaks_of_no_items ⟨.failure, ?_⟩ hmost fun hplain => nomatch hplain
    exact (heardBy_hear who s level.returns .failure).trans (by rw [Upshot.spoken, Nat.mul_one])

/-! ### All that comes of an action -/

/-- Between `s` and `s'` a listener hears one outcome, several times or never; and if the frame goes
on and what was done is `plain`, it is never. -/
def Heard (who : String) (most count : Nat) (plain : Prop) (s s' : Standing) (flow : Flow) : Prop :=
  ∃ k outcome, k ≤ most ∧ s'.heardBy who = s.heardBy who ++ List.replicate (count * k) outcome ∧
    (plain → flow = .onward → k = 0)

variable {fuel : Nat} {flow : Flow} {action : Action standard} {actions : List (Action standard)}

theorem flow_eq_onward_iff {items : Flow} :
    u.flow items = .onward ↔ u.ends = 0 ∧ (items = .onward ∨ ∃ returns, u.scope = .own returns) := by
  unfold Upshot.flow
  by_cases hends : u.ends = 0
  · rw [if_pos hends]
    cases u.scope with
    | same => simp [hends]
    | shared returns => simp [hends]
    | own returns => simp [hends]
  · rw [if_neg hends]
    simp [hends]

theorem inTurn_hears {count : Nat} {f : Action standard → Standing → Option (Flow × Standing)}
    (hone : ∀ a ∈ actions, ∀ s flow s', f a s = some (flow, s') →
      Heard who most count (isPlain a) s s' flow)
    (hshape : (∀ a ∈ actions, isPlain a) ∨ ∃ a, actions = [a])
    (h : inTurn f actions s = some (flow, s')) :
    Heard who most count (∀ a ∈ actions, isPlain a) s s' flow := by
  rcases hshape with hplain | ⟨a, rfl⟩
  · induction actions generalizing s with
    | nil =>
      cases h
      exact ⟨0, .failure, Nat.zero_le _, heardBy_append_none rfl _, fun _ _ => rfl⟩
    | cons a rest ih =>
      obtain ⟨hfirst, hrest⟩ := List.forall_mem_cons.mp hone
      obtain ⟨ha, hplain⟩ := List.forall_mem_cons.mp hplain
      rw [inTurn] at h
      cases hf : f a s with
      | none =>
        rw [hf] at h
        cases h
      | some result =>
        obtain ⟨first, s₁⟩ := result
        rw [hf] at h
        obtain ⟨k, outcome, hk, hheard, hquiet⟩ := hfirst s first s₁ hf
        cases first with
        | onward =>
          -- as the frame went on, nothing was heard yet
          obtain ⟨k', outcome', hk', hheard', hquiet'⟩ := ih hrest h hplain
          rw [hquiet ha rfl, Nat.mul_zero, List.replicate_zero, List.append_nil] at hheard
          exact ⟨k', outcome', hk', hheard ▸ hheard', fun _ => hquiet' hplain⟩
        | ended =>
          cases h
          exact ⟨k, outcome, hk, hheard, fun _ h => Flow.noConfusion h⟩
  · rw [inTurn_singleton] at h
    obtain ⟨k, outcome, hk, hheard, hquiet⟩ := hone a List.mem_cons_self s flow s' h
    exact ⟨k, outcome, hk, hheard, fun hplain => hquiet (hplain a List.mem_cons_self)⟩

theorem Scope.Tells.level_returns {scope : Scope} (h : scope.Tells who level) :
    (scope.level level).returns = level.returns ∧ (∀ returns, scope ≠ .own returns) ∨
      who ∉ (scope.level level).returns.listeners := by
  cases scope with
  | same => exact .inl ⟨rfl, fun _ h => nomatch h⟩
  | shared returns => exact .inl ⟨h, fun _ h => nomatch h⟩
  | own returns => exact .inr h

theorem act_hears (hforks : limits.forks ≤ most) (hmost : 1 ≤ most)
    (hp : Private who most level.returns action)
    (h : act limits fuel level action s = some (flow, s')) :
    Heard who most (level.returns.listeners.count who) (isPlain action) s s' flow := by
  induction fuel generalizing level action s flow s' with
  | zero => cases h
  | succ fuel ih =>
    obtain ⟨hf, items, hitems, rfl⟩ := act_cases h
    have speaks := upshot_speaks hforks hmost hp hf
    obtain ⟨outcome, hheard⟩ := speaks.heard
    generalize upshot limits level action s = u at *
    by_cases hlast : u.spoken action = 0
    · -- the action leaves the word to its items, which may be done in a frame that `who` ignores
      rw [hlast, Nat.mul_zero, List.replicate_zero, List.append_nil] at hheard
      obtain ⟨k, outcome, hk, hheard', hquiet⟩ := inTurn_hears
        (fun a ha s flow s' h => ih (speaks.items a ha) h) speaks.one hitems
      rw [hheard] at hheard'
      rcases speaks.scope.level_returns with ⟨hreturns, hown⟩ | hdeaf
      · rw [hreturns] at hheard'
        refine ⟨k, outcome, hk, hheard', fun hplain honward => ?_⟩
        obtain ⟨hends, hitems⟩ := flow_eq_onward_iff.mp honward
        refine hquiet (fun a ha => ((speaks.quiet hplain hends).2 a ha).1) ?_
        exact hitems.resolve_right fun ⟨returns, h⟩ => hown returns h
      · rw [List.count_eq_zero_of_not_mem hdeaf, Nat.zero_mul] at hheard'
        exact ⟨0, outcome, Nat.zero_le _, hheard', fun _ _ => rfl⟩
    · -- it has had the last word itself
      rw [speaks.last hlast] at hitems
      cases hitems
      refine ⟨u.spoken action, outcome, speaks.few, hheard, fun hplain honward => ?_⟩
      exact (speaks.quiet hplain (flow_eq_onward_iff.mp honward).1).1

end Trampoline.Command
