import Trampoline.Submission
import Trampoline.Proofs.Machine.History

/-! What an action of the standard vocabulary comes to.

The whole of it, said without a machine: the scene and the cost it leaves, how
often it ended its frame, and the items it wants done, with the frame they belong
to. `upshot` computes this from the level the action is run at. `meaning_yields`
says that the action does just that to a machine, and discards nothing else; so
everything that is said of a step is said of its upshot. -/
namespace Trampoline

namespace Command

/-- What an action sees of the frame it is run in. -/
structure Level where
  depth : Nat
  returns : Callback
  deriving DecidableEq, Repr

/-- What an action finds and what it leaves. -/
structure Standing where
  scene : Scene Host
  cost : Nat

/-- Where items belong. -/
inductive Scope where
  | same
  /-- In a frame one deeper that ends with this one. -/
  | shared (returns : Callback)
  /-- In a frame one deeper that ends on its own. -/
  | own (returns : Callback)
  deriving DecidableEq, Repr

structure Upshot where
  /-- The fault that ends the run. -/
  fault : Option Fault := none
  standing : Standing
  /-- How often the frame was ended. -/
  ends : Nat := 0
  scope : Scope := .same
  /-- What is to be done next, one after another. -/
  items : List (Action standard) := []
  /-- The items are all queued at once, however many they are. -/
  atOnce : Bool := false

/-! ### Computing it -/

def Standing.write (s : Standing) (f : Journal → Journal) : Standing :=
  { s with scene := s.scene.write f }

/-- Goes on if one more unit can be charged. -/
def Standing.pay (limits : Limits) (s : Standing) (next : Standing → Upshot) : Upshot :=
  if s.cost < limits.commands then next { s with cost := s.cost + 1 }
  else { fault := some (.ofCeiling (.commandCost limits.commands)), standing := s }

/-- In a profiled section. -/
def Standing.within (activity : Activity) (s : Standing) (run : Standing → Upshot) : Upshot :=
  let u := run (s.write (·.openSection activity))
  { u with standing := u.standing.write (·.closeSection) }

/-- The sources that execute the last stage's command. -/
def finalists (returns : Callback) (flags : Flags) (sources : List Source) : List Source :=
  if flags.returning then
    (sources.take 1).map fun s => s.reportingTo (s.callback.chain returns)
  else sources

def bodyOf (id : String) (arguments : Option Record) (scene : Scene Host) :
    Except CommandError (Body standard) × Scene Host :=
  let (result, library) := scene.host.library.instantiate id arguments
  (result, { scene with host := { scene.host with library } })

/-- The item made of a function's body; if there is none, the source hears why. -/
def itemOf (id : String) (arguments : Option Record) (source : Source) (flags : Flags)
    (item : Body standard → Action standard) (scene : Scene Host) :
    List (Action standard) × Scene Host :=
  match bodyOf id arguments scene with
  | (.ok body, scene) => ([item body], scene)
  | (.error e, scene) => ([], scene.write (·.handleError source e flags.forked))

def outcomeOf : Option Int32 → Outcome
  | some n => .ok n
  | none => .failure

/-- How often an executor ends the frame for one source. -/
def Executor.ends : Executor → Nat
  | .return _ => 1
  | .function .. => 0
  | .trigger _ => 0

def carryOut (level : Level) (e : Executor) (flags : Flags) (source : Source) (scene : Scene Host) :
    List (Action standard) × Scene Host :=
  match e with
  | .return value =>
    ([], Audience.hear level.returns (outcomeOf value)
      (Audience.hear source.callback (outcomeOf value) scene))
  | .function id arguments =>
    itemOf id arguments source flags (fun body =>
      if flags.returning then .call body level.returns true source
      else .call body source.callback false source) scene
  | .trigger id => itemOf id none source flags (fun body => .isolated body source) scene

def carryOutAll (level : Level) (e : Executor) (flags : Flags) :
    List Source → Scene Host → List (Action standard) × Scene Host
  | [], scene => ([], scene)
  | source :: rest, scene =>
    let (items, scene) := carryOut level e flags source scene
    let (more, scene) := carryOutAll level e flags rest scene
    (items ++ more, scene)

/-- At the end of a walk. -/
def finish (level : Level) (chain : Chain standard) (sources : List Source) (flags : Flags)
    (s : Standing) : Upshot :=
  if sources.isEmpty then
    { standing := s, items := if flags.returning then [.fallthrough] else [] }
  else
    match chain.top.executable with
    | some (.custom e) =>
      let (items, scene) := carryOutAll level e flags sources s.scene
      { standing := { s with scene }, ends := sources.length * e.ends, items, atOnce := true }
    | some (.command c) =>
      { standing := s
        items := (finalists level.returns flags sources).map (.execute chain.input c flags) }
    | none =>
      { fault := some (.internal ("terminal stage of '" ++ chain.input ++ "' has nothing to run"))
        standing := s }

/-- `return run`. -/
def takeOver (starter : Source) (sources : List Source) (chain : Chain standard) (flags : Flags)
    (s : Standing) : Upshot :=
  if sources.isEmpty then
    { standing := s, items := if flags.returning then [.fallthrough] else [] }
  else
    { standing := s, ends := 1
      items := [.walk chain.next starter sources { flags with returning := true }] }

/-- What a modifier stage makes of its sources. -/
def spreadOut (limits : Limits) (modifier : Modifier) (starter : Source) (sources : List Source)
    (flags : Flags) (scene : Scene Host) : Spread × Scene Host :=
  let (result, journal) :=
    spread (modify modifier scene.host) limits.forks flags starter sources [] 0 scene.journal
  (result, { scene with journal })

/-- The walk of a chain, from `top` on. -/
def descend (limits : Limits) (level : Level) (starter : Source) (input : String) :
    (before : List (Stage standard)) → (top : Stage standard) → (after : List (Stage standard)) →
    List Source → Flags → Standing → Upshot
  | before, top, [], sources, flags, s => finish level ⟨input, before, top, []⟩ sources flags s
  | before, top, stage :: after, sources, flags, s =>
    let flags := if top.forks then { flags with forked := true } else flags
    match top.redirect with
    | some (.custom .returnRun) => takeOver starter sources ⟨input, before, top, stage :: after⟩ flags s
    | some (.modifier m) =>
      s.pay limits fun s =>
        let made := spreadOut limits m starter sources flags s.scene
        match made.1 with
        | .stopped => { standing := { s with scene := made.2 } }
        | .onward [] =>
          finish level ⟨input, top :: before, stage, after⟩ [] flags { s with scene := made.2 }
        | .onward sources =>
          descend limits level starter input (top :: before) stage after sources flags
            { s with scene := made.2 }
    | none =>
      { fault := some (.internal ("stage '" ++ top.input ++ "' neither redirects nor runs"))
        standing := s }

def upshot (limits : Limits) (level : Level) (action : Action standard) (s : Standing) : Upshot :=
  match action with
  | .walk chain starter sources flags =>
    s.within (.prepare chain.input)
      (descend limits level starter chain.input chain.before chain.top chain.after sources flags)
  | .execute input command flags source =>
    s.within (.execute input) fun s =>
      s.pay limits fun s =>
        { standing :=
            { s with scene := dialect.settle level.depth input command flags source s.scene } }
  | .call body returns shared source =>
    s.pay limits fun s =>
      { standing := s.write (·.trace (.call level.depth body.id body.lines.length))
        scope := if shared then .shared returns else .own returns
        items := body.lines.map (Dialect.line source) }
  | .isolated body source =>
    { standing := s, scope := .own source.callback
      items := [.call body source.callback true source] }
  | .fallthrough =>
    { standing := { s with scene := Audience.hear level.returns .failure s.scene }, ends := 1 }

/-! ### Bringing it about -/

/-- The machine that runs the standard vocabulary. -/
abbrev Rig := Machine (Scene Host) (Task (Action standard))

/-- The level of a frame. -/
def levelOf (frame : Frame) : Level := ⟨frame.depth, frame.returns⟩

/-- What an action finds on a machine. -/
def standingOf (m : Rig) : Standing := ⟨m.world, m.cost⟩

def Standing.on (s : Standing) (m : Rig) : Rig := { m with world := s.scene, cost := s.cost }

/-- The frame the items belong to, with `fresh` for a governor of its own. -/
def Scope.frame (scope : Scope) (frame : Frame) (fresh : GovernorId) : Frame :=
  match scope with
  | .same => frame
  | .shared returns => ⟨Depth.below frame.depth, returns, frame.governor⟩
  | .own returns => ⟨Depth.below frame.depth, returns, fresh⟩

/-- The machine where that frame is open. -/
def Scope.opened (scope : Scope) (frame : Frame) (m : Rig) : Rig :=
  match scope with
  | .same => m
  | .shared _ => m
  | .own _ => (m.govern (Depth.below frame.depth)).2

/-- The tasks that are queued for the items. -/
def Upshot.tasks (u : Upshot) : List (Task (Action standard)) :=
  if u.atOnce then u.items.map .act else Task.batch u.items

theorem Upshot.flatMap_tasks (u : Upshot) : u.tasks.flatMap Task.items = u.items := by
  unfold tasks
  split
  · exact Task.flatMap_act u.items
  · exact Task.flatMap_batch u.items

/-- An action that comes to this does it to a machine. -/
def Upshot.settle (u : Upshot) (frame : Frame) (m : Rig) : Except Fault Unit × Rig :=
  let m := u.standing.on m
  match u.fault with
  | some fault => (.error fault, m)
  | none =>
    let m := m.discardTimes frame.governor u.ends
    (.ok (), (u.scope.opened frame m).pushAll (u.scope.frame frame m.governors.size) u.tasks)

/-- Work that does to a machine what the upshot says. -/
structure Yields (w : Deed standard Host Unit) (frame : Frame) (m : Rig) (u : Upshot) : Prop where
  exec : w.exec m = u.settle frame m
  /-- It discards only what waits in its own frame. -/
  discards : ∀ g, (w.history m).discards g = if g = frame.governor then u.ends else 0

variable {frame : Frame} {m : Rig} {w : Deed standard Host Unit} {u : Upshot}

theorem yields_done : Yields (.done ()) frame m { standing := standingOf m } :=
  ⟨rfl, fun _ => (ite_self 0).symm⟩

theorem yields_abort (fault : Fault) :
    Yields (.abort fault) frame m { fault := some fault, standing := standingOf m } :=
  ⟨rfl, fun _ => (ite_self 0).symm⟩

theorem yields_enqueue (action : Action standard) :
    Yields (Work.enqueue frame (.act action)) frame m
      { standing := standingOf m, items := [action] } :=
  ⟨rfl, fun _ => (ite_self 0).symm⟩

theorem yields_change (f : Scene Host → Scene Host)
    (h : Yields w frame { m with world := f m.world } u) :
    Yields (do Work.change f; w) frame m u :=
  ⟨h.exec, h.discards⟩

theorem discards_pay (m : Rig) (g : GovernorId) :
    ((Work.pay 1 : Deed standard Host Unit).history m).discards g = 0 := by
  simp only [Work.pay, Work.history, History.discards, List.countP_cons]
  cases (m.charge 1).1 with
  | ok _ => rfl
  | error fault => rfl

theorem yields_pay (next : Standing → Upshot)
    (h : m.cost < m.limits.commands →
      Yields w frame { m with cost := m.cost + 1 } (next ⟨m.world, m.cost + 1⟩)) :
    Yields (do Work.pay 1; w) frame m ((standingOf m).pay m.limits next) := by
  have hpay := Work.exec_pay m
  by_cases hroom : m.cost < m.limits.commands
  · rw [if_pos hroom] at hpay
    rw [show (standingOf m).pay m.limits next = next ⟨m.world, m.cost + 1⟩ from if_pos hroom]
    constructor
    · rw [Work.exec_bind, hpay]
      exact (h hroom).exec
    · intro g
      rw [Work.history_bind, hpay, History.discards_append, discards_pay, Nat.zero_add]
      exact (h hroom).discards g
  · rw [if_neg hroom] at hpay
    rw [show (standingOf m).pay m.limits next =
      { fault := some (.ofCeiling (.commandCost m.limits.commands)), standing := standingOf m } from
        if_neg hroom]
    constructor
    · rw [Work.exec_bind, hpay]
      rfl
    · intro g
      rw [Work.history_bind, hpay, List.append_nil, discards_pay, ite_self]

theorem on_discardTimes (s : Standing) (m : Rig) (g : GovernorId) (n : Nat) :
    s.on (m.discardTimes g n) = (s.on m).discardTimes g n := by
  induction n generalizing m with
  | zero => rfl
  | succ n ih => exact ih (m.discard g)

theorem on_pushAll (s : Standing) (m : Rig) (frame : Frame) (tasks : List (Task (Action standard))) :
    s.on (m.pushAll frame tasks) = (s.on m).pushAll frame tasks := by
  induction tasks generalizing m with
  | nil => rfl
  | cons task rest ih => exact ih (m.push frame task)

/-- Settling with another standing is settling and then setting it. -/
theorem settle_standing (u : Upshot) (s : Standing) (frame : Frame) (m : Rig) :
    { u with standing := s }.settle frame m =
      ((u.settle frame m).1, s.on (u.settle frame m).2) := by
  obtain ⟨fault, standing, ends, scope, items, atOnce⟩ := u
  cases fault with
  | some fault => rfl
  | none =>
    have hset : s.on m = s.on (standing.on m) := rfl
    cases scope <;>
      · simp only [Upshot.settle, hset, Scope.opened, ← on_discardTimes, on_pushAll]
        rfl

theorem standing_settle (u : Upshot) (frame : Frame) (m : Rig) :
    standingOf (u.settle frame m).2 = u.standing := by
  have h := settle_standing u u.standing frame m
  exact congrArg (fun r => standingOf r.2) h

theorem yields_ensuring (last : Scene Host → Scene Host) (h : Yields w frame m u) :
    Yields (w.ensuring last) frame m
      { u with standing := { u.standing with scene := last u.standing.scene } } := by
  constructor
  · have hlast : { (u.settle frame m).2 with world := last (u.settle frame m).2.world } =
        Standing.on { u.standing with scene := last u.standing.scene } (u.settle frame m).2 := by
      rw [← standing_settle u frame m]
      rfl
    rw [Work.exec_ensuring, h.exec, hlast]
    exact (settle_standing u _ frame m).symm
  · intro g
    rw [Work.discards_ensuring]
    exact h.discards g

theorem yields_within (activity : Activity) (run : Standing → Upshot)
    (h : Yields w frame { m with world := m.world.write (·.openSection activity) }
      (run ((standingOf m).write (·.openSection activity)))) :
    Yields (Dialect.within activity w) frame m ((standingOf m).within activity run) :=
  yields_change _ (yields_ensuring _ h)

/-! ### The last stage -/

theorem discards_schedule (frame : Frame) (items : List (Action standard)) (m : Rig)
    (g : GovernorId) :
    ((Task.schedule .plain frame items : Deed standard Host Unit).history m).discards g = 0 := by
  match items with
  | [] => rfl
  | [_] => rfl
  | [_, _] => rfl
  | _ :: _ :: _ :: _ => rfl

theorem yields_schedule (items : List (Action standard)) :
    Yields (Task.schedule .plain frame items) frame m { standing := standingOf m, items } :=
  ⟨Task.exec_schedule frame items m, fun _ => (discards_schedule ..).trans (ite_self 0).symm⟩

theorem yields_act {β : Type} (f : Scene Host → β × Scene Host)
    (next : β → Deed standard Host Unit)
    (h : Yields (next (f m.world).1) frame { m with world := (f m.world).2 } u) :
    Yields (do next (← Work.act f)) frame m u :=
  ⟨h.exec, h.discards⟩

theorem yields_withBody (frame : Frame) (m : Rig) (id : String) (arguments : Option Record)
    (source : Source) (flags : Flags) (item : Body standard → Action standard) :
    Yields (withBody id arguments source flags fun body => Work.enqueue frame (.act (item body)))
      frame m
      { standing := ⟨(itemOf id arguments source flags item m.world).2, m.cost⟩
        items := (itemOf id arguments source flags item m.world).1
        atOnce := true } := by
  refine yields_act (bodyOf id arguments) _ ?_
  unfold itemOf
  match bodyOf id arguments m.world with
  | (.ok body, scene) => exact ⟨rfl, fun _ => (ite_self 0).symm⟩
  | (.error e, scene) => exact ⟨rfl, fun _ => (ite_self 0).symm⟩

theorem yields_carryOut (e : Executor) (source : Source) (chain : Chain standard) (flags : Flags) :
    Yields (execute e source chain flags frame) frame m
      { standing := ⟨(carryOut (levelOf frame) e flags source m.world).2, m.cost⟩
        ends := e.ends
        items := (carryOut (levelOf frame) e flags source m.world).1
        atOnce := true } := by
  match e with
  | .return value =>
    have houtcome : outcomeOf value = match value with
        | some n => Outcome.ok n
        | none => .failure := by
      cases value with
      | some n => rfl
      | none => rfl
    constructor
    · simp only [carryOut, houtcome]
      rfl
    · intro g
      exact History.discards_cons_discarded g frame.governor m []
  | .function id arguments =>
    have h := yields_withBody frame m id arguments source flags fun body =>
      if flags.returning then .call body frame.returns true source
      else .call body source.callback false source
    exact h
  | .trigger id =>
    have h := yields_withBody frame m id none source flags fun body =>
      .isolated body source
    exact h

/-- Work after work that either queued nothing or is followed by no end of the frame. -/
theorem yields_then {w' : Deed standard Host Unit} {s s' : Standing} {ends ends' : Nat}
    {items items' : List (Action standard)}
    (h : Yields w frame m { standing := s, ends, items, atOnce := true })
    (h' : ∀ m, standingOf m = s →
      Yields w' frame m { standing := s', ends := ends', items := items', atOnce := true })
    (hapart : items = [] ∨ ends' = 0) :
    Yields (do w; w') frame m
      { standing := s', ends := ends + ends', items := items ++ items', atOnce := true } := by
  have hfirst : w.exec m =
      (.ok (), ((s.on m).discardTimes frame.governor ends).pushAll frame (items.map .act)) := h.exec
  have hnext := h' (((s.on m).discardTimes frame.governor ends).pushAll frame (items.map .act)) <| by
    have hs := standing_settle { standing := s, ends, items, atOnce := true } frame m
    exact hs
  constructor
  · rw [Work.exec_bind, hfirst]
    refine hnext.exec.trans (congrArg (Prod.mk _) ?_)
    change ((s'.on _).discardTimes frame.governor ends').pushAll frame (items'.map .act) =
      ((s'.on m).discardTimes frame.governor (ends + ends')).pushAll frame ((items ++ items').map .act)
    have hset : s'.on (s.on m) = s'.on m := rfl
    rw [on_pushAll, on_discardTimes, hset, Machine.discardTimes_add, List.map_append,
      Machine.pushAll_append]
    rcases hapart with rfl | rfl
    · rfl
    · rfl
  · intro g
    rw [Work.history_bind, hfirst, History.discards_append, h.discards g]
    have hrest := hnext.discards g
    simp only at hrest ⊢
    rw [hrest]
    by_cases hg : g = frame.governor
    · rw [if_pos hg, if_pos hg, if_pos hg]
    · rw [if_neg hg, if_neg hg, if_neg hg]

theorem yields_carryOutAll (e : Executor) (sources : List Source) (chain : Chain standard)
    (flags : Flags) :
    Yields (sources.forM fun source => execute e source chain flags frame) frame m
      { standing := ⟨(carryOutAll (levelOf frame) e flags sources m.world).2, m.cost⟩
        ends := sources.length * e.ends
        items := (carryOutAll (levelOf frame) e flags sources m.world).1
        atOnce := true } := by
  induction sources generalizing m with
  | nil =>
    rw [List.length_nil, Nat.zero_mul]
    exact ⟨rfl, fun _ => (ite_self 0).symm⟩
  | cons source rest ih =>
    rw [List.length_cons, Nat.succ_mul, Nat.add_comm]
    refine yields_then (yields_carryOut e source chain flags) (fun m' hm => ?_) ?_
    · have h := ih (m := m')
      rw [show m'.world = _ from congrArg Standing.scene hm,
        show m'.cost = _ from congrArg Standing.cost hm] at h
      exact h
    · cases e with
      | «return» value => exact .inl rfl
      | function id arguments => exact .inr (Nat.mul_zero _)
      | trigger id => exact .inr (Nat.mul_zero _)

theorem yields_finish (chain : Chain standard) (sources : List Source) (flags : Flags) :
    Yields (dialect.finish frame chain sources flags) frame m
      (finish (levelOf frame) chain sources flags (standingOf m)) := by
  unfold Dialect.finish finish
  by_cases hempty : sources.isEmpty
  · rw [if_pos hempty, if_pos hempty]
    by_cases hreturning : flags.returning
    · rw [if_pos hreturning, if_pos hreturning]
      exact yields_enqueue _
    · rw [if_neg hreturning, if_neg hreturning]
      exact yields_done
  · rw [if_neg hempty, if_neg hempty]
    match chain.top.executable with
    | some (.custom e) => exact yields_carryOutAll e sources chain flags
    | some (.command c) => exact yields_schedule _
    | none => exact yields_abort _

/-! ### The walk -/

theorem yields_returnRun (starter : Source) (sources : List Source) (chain : Chain standard)
    (flags : Flags) :
    Yields (returnRun starter sources chain flags frame) frame m
      (takeOver starter sources chain flags (standingOf m)) := by
  unfold returnRun takeOver
  by_cases hempty : sources.isEmpty
  · rw [if_pos hempty, if_pos hempty]
    by_cases hreturning : flags.returning
    · rw [if_pos hreturning, if_pos hreturning]
      exact yields_enqueue _
    · rw [if_neg hreturning, if_neg hreturning]
      exact yields_done
  · rw [if_neg hempty, if_neg hempty]
    exact ⟨rfl, fun g => History.discards_cons_discarded g frame.governor _ [_]⟩

theorem yields_redirectAll (modifier : Modifier) (starter : Source) (sources : List Source)
    (flags : Flags) (next : Spread → Deed standard Host Unit) (run : Spread → Standing → Upshot)
    (h : ∀ result m', m'.limits = m.limits →
      Yields (next result) frame m' (run result (standingOf m'))) :
    Yields (do next (← dialect.redirectAll modifier starter sources flags)) frame m
      ((standingOf m).pay m.limits fun s =>
        let made := spreadOut m.limits modifier starter sources flags s.scene
        run made.1 { s with scene := made.2 }) := by
  have hassoc : (do next (← dialect.redirectAll modifier starter sources flags)) =
      (do
        Work.pay 1
        Work.bind (.forkLimit fun limit => Work.act (spreadOut { m.limits with forks := limit }
          modifier starter sources flags)) next) :=
    Work.bind_assoc ..
  rw [hassoc]
  refine yields_pay _ fun hroom => ?_
  have hnext := h (spreadOut m.limits modifier starter sources flags m.world).1
    { m with
      cost := m.cost + 1
      world := (spreadOut m.limits modifier starter sources flags m.world).2 } rfl
  exact ⟨hnext.exec, hnext.discards⟩

theorem yields_descend (starter : Source) (input : String) (before : List (Stage standard))
    (top : Stage standard) (after : List (Stage standard)) (sources : List Source) (flags : Flags) :
    Yields (dialect.descend frame starter input before top after sources flags) frame m
      (descend m.limits (levelOf frame) starter input before top after sources flags
        (standingOf m)) := by
  induction after generalizing before top sources flags m with
  | nil => exact yields_finish _ sources flags
  | cons stage after ih =>
    unfold Dialect.descend descend
    dsimp only
    generalize (if top.forks then { flags with forked := true } else flags) = flags
    cases top.redirect with
    | none => exact yields_abort _
    | some redirect =>
      cases redirect with
      | custom r => exact yields_returnRun starter sources _ flags
      | modifier modifier =>
        refine yields_redirectAll modifier starter sources flags _ (fun result s =>
          match result with
          | .stopped => { standing := s }
          | .onward [] => finish (levelOf frame) ⟨input, top :: before, stage, after⟩ [] flags s
          | .onward sources =>
            descend m.limits (levelOf frame) starter input (top :: before) stage after sources
              flags s) fun result m' hm => ?_
        match result with
        | .stopped => exact yields_done
        | .onward [] => exact yields_finish _ [] flags
        | .onward (source :: rest) =>
          have h := ih (m := m') (top :: before) stage (source :: rest) flags
          rw [hm] at h
          exact h

theorem meaning_yields (action : Action standard) (frame : Frame) (m : Rig) :
    Yields (dialect.meaning action frame) frame m
      (upshot m.limits (levelOf frame) action (standingOf m)) := by
  cases action with
  | walk chain starter sources flags =>
    exact yields_within _ _ (yields_descend ..)
  | execute input command flags source =>
    refine yields_within _ (fun s => s.pay m.limits fun s =>
      { standing :=
          { s with scene := dialect.settle frame.depth input command flags source s.scene } }) ?_
    exact yields_pay _ fun hroom => yields_change _ yields_done
  | call body returns shared source =>
    refine yields_pay (fun s =>
      { standing := s.write (·.trace (.call frame.depth body.id body.lines.length))
        scope := if shared then .shared returns else .own returns
        items := body.lines.map (Dialect.line source) }) fun hroom => yields_change _ ?_
    cases shared with
    | true => exact ⟨Task.exec_schedule .., fun _ => (discards_schedule ..).trans (ite_self 0).symm⟩
    | false => exact ⟨Task.exec_schedule .., fun _ => (discards_schedule ..).trans (ite_self 0).symm⟩
  | isolated body source => exact ⟨rfl, fun _ => (ite_self 0).symm⟩
  | fallthrough => exact ⟨rfl, fun g => History.discards_cons_discarded g frame.governor m []⟩

end Command

end Trampoline
