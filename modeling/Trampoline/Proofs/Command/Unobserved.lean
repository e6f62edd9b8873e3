import Trampoline.Proofs.Command.Upshot
import Trampoline.Proofs.Function.Unused
import Trampoline.Proofs.Journal
import Trampoline.Proofs.Machine.Lockstep

/-! What is observed of a run does not change it.

Two scenes are alike if the same lines were shown and the same outcomes heard in them,
and their hosts have the same counters and alike libraries; whether anything is traced
or profiled, and which bodies functions keep, may differ. What an action comes to in
one is alike to what it comes to in the other (`upshot_alike`), so the machines they
belong to run in lockstep (`lockstep`) and end alike (`run_alike`). -/
namespace Trampoline

open Command (standard)

/-! ### Journals -/

/-- Journals with the same lines and outcomes in them. -/
structure Journal.Alike (j j' : Journal) : Prop where
  shown : j.shown = j'.shown
  heard : j.heard = j'.heard

namespace Journal

variable {j j' : Journal}

theorem shown_trace (j : Journal) (event : Trace.Event) : (j.trace event).shown = j.shown := by
  unfold trace
  split <;> rfl

theorem shown_openSection (j : Journal) (activity : Activity) :
    (j.openSection activity).shown = j.shown := by
  unfold openSection
  split <;> rfl

theorem shown_closeSection (j : Journal) : j.closeSection.shown = j.shown := by
  unfold closeSection
  split <;> rfl

theorem Alike.display (h : j.Alike j') (line : OutputLine) :
    (j.display line).Alike (j'.display line) := by
  refine ⟨?_, h.heard⟩
  have hshown := h.shown
  simp only [Journal.shown, Journal.display, List.reverse_cons] at hshown ⊢
  rw [hshown]

theorem Alike.hear (h : j.Alike j') (callback : Callback) (outcome : Outcome) :
    (j.hear callback outcome).Alike (j'.hear callback outcome) :=
  ⟨by rw [shown_hear, shown_hear, h.shown], by rw [heard_hear, heard_hear, h.heard]⟩

theorem Alike.trace (h : j.Alike j') (event : Trace.Event) :
    (j.trace event).Alike (j'.trace event) :=
  ⟨by rw [shown_trace, shown_trace, h.shown], by rw [heard_trace, heard_trace, h.heard]⟩

theorem Alike.openSection (h : j.Alike j') (activity : Activity) :
    (j.openSection activity).Alike (j'.openSection activity) :=
  ⟨by rw [shown_openSection, shown_openSection, h.shown],
    by rw [heard_openSection, heard_openSection, h.heard]⟩

theorem Alike.closeSection (h : j.Alike j') : j.closeSection.Alike j'.closeSection :=
  ⟨by rw [shown_closeSection, shown_closeSection, h.shown],
    by rw [heard_closeSection, heard_closeSection, h.heard]⟩

theorem Alike.handleError (h : j.Alike j') (source : Source) (e : CommandError) (forked : Bool) :
    (j.handleError source e forked).Alike (j'.handleError source e forked) := by
  have htraced : ∀ k : Journal, (if k.traced then k.trace (.error e.describe) else k).Alike k := by
    intro k
    split
    · exact ⟨shown_trace k _, heard_trace k _⟩
    · exact ⟨rfl, rfl⟩
  have halike : (if j.traced then j.trace (.error e.describe) else j).Alike
      (if j'.traced then j'.trace (.error e.describe) else j') :=
    ⟨((htraced j).shown.trans h.shown).trans (htraced j').shown.symm,
      ((htraced j).heard.trans h.heard).trans (htraced j').heard.symm⟩
  unfold Journal.handleError
  dsimp only
  split
  · exact halike
  · exact halike.display _

/-- A stage makes the same of its sources. -/
theorem Alike.spread (h : j.Alike j') (modify : Source → Except CommandError (List Source))
    (limit : Nat) (flags : Flags) (starter : Source) (sources made : List Source) (count : Nat) :
    (spread modify limit flags starter sources made count j).1 =
        (Trampoline.spread modify limit flags starter sources made count j').1 ∧
      (Trampoline.spread modify limit flags starter sources made count j).2.Alike
        (Trampoline.spread modify limit flags starter sources made count j').2 := by
  induction sources generalizing made count j j' with
  | nil => exact ⟨rfl, h⟩
  | cons source rest ih =>
    unfold Trampoline.spread
    cases modify source with
    | ok produced =>
      dsimp only
      split
      · exact ⟨rfl, h.handleError ..⟩
      · exact ih h ..
    | error e =>
      dsimp only
      split
      · exact ih (h.handleError ..) ..
      · exact ⟨rfl, h.handleError ..⟩

end Journal

/-! ### Scenes -/

structure Scene.Alike (s s' : Scene Host) : Prop where
  journal : s.journal.Alike s'.journal
  counters : s.host.counters = s'.host.counters
  library : s.host.library.Alike s'.host.library

theorem Scene.Alike.hear {s s' : Scene Host} (h : s.Alike s') (callback : Callback)
    (outcome : Outcome) :
    Scene.Alike (Audience.hear callback outcome s) (Audience.hear callback outcome s') :=
  { h with journal := h.journal.hear callback outcome }

namespace Command

/-- Actions that differ in when the bodies they carry were made. -/
inductive ActionsAlike : Action standard → Action standard → Prop where
  | same (action : Action standard) : ActionsAlike action action
  | call {body body' : Body standard} (h : body.content = body'.content) (returns : Callback)
      (shared : Bool) (source : Source) :
      ActionsAlike (.call body returns shared source) (.call body' returns shared source)
  | isolated {body body' : Body standard} (h : body.content = body'.content) (source : Source) :
      ActionsAlike (.isolated body source) (.isolated body' source)

structure Standing.Alike (s s' : Standing) : Prop where
  scene : s.scene.Alike s'.scene
  cost : s.cost = s'.cost

structure Upshot.Alike (u u' : Upshot) : Prop where
  standing : u.standing.Alike u'.standing
  items : List.Forall₂ ActionsAlike u.items u'.items
  fault : u.fault = u'.fault := by rfl
  ends : u.ends = u'.ends := by rfl
  scope : u.scope = u'.scope := by rfl
  atOnce : u.atOnce = u'.atOnce := by rfl

variable {scene scene' : Scene Host} {s s' : Standing}

theorem actionsAlike_refl (actions : List (Action standard)) :
    List.Forall₂ ActionsAlike actions actions :=
  List.forall₂_same.mpr fun action _ => .same action

theorem Standing.Alike.set (h : s.Alike s') (hscene : scene.Alike scene') :
    Standing.Alike { s with scene } { s' with scene := scene' } :=
  ⟨hscene, h.cost⟩

/-! ### Commands -/

theorem modify_alike (modifier : Modifier) (h : scene.Alike scene') :
    modify modifier scene.host = modify modifier scene'.host := by
  funext source
  cases modifier with
  | rename names => rfl
  | silence => rfl
  | filter condition => simp only [modify, h.counters]

theorem perform_alike (verb : Verb) (source : Source) (h : scene.Alike scene') :
    (perform verb source scene).1 = (perform verb source scene').1 ∧
      (perform verb source scene).2.Alike (perform verb source scene').2 := by
  cases verb with
  | say text => exact ⟨rfl, { h with journal := h.journal.display _ }⟩
  | getCounter name => exact ⟨by simp only [perform, h.counters], h⟩
  | addCounter name delta =>
    exact ⟨by simp only [perform, h.counters],
      { h with counters := congrArg (fun counters => (counters.add name delta).2) h.counters }⟩
  | setCounter name value =>
    exact ⟨rfl, { h with counters := congrArg (fun counters => counters.insert name value) h.counters }⟩
  | fail text => exact ⟨rfl, h⟩
  | test condition => exact ⟨by simp only [perform, h.counters], h⟩

theorem settle_alike (depth : Nat) (input : String) (command : Verb) (flags : Flags)
    (source : Source) (h : scene.Alike scene') :
    (dialect.settle depth input command flags source scene).Alike
      (dialect.settle depth input command flags source scene') := by
  have htraced : (scene.write (·.trace (.command depth input))).Alike
      (scene'.write (·.trace (.command depth input))) :=
    { h with journal := h.journal.trace _ }
  obtain ⟨hresult, hafter⟩ := perform_alike command source htraced
  have hperform : dialect.perform = perform := rfl
  simp only [Dialect.settle, hperform]
  generalize perform command source (scene.write (·.trace (.command depth input))) = left
    at hresult hafter
  generalize perform command source (scene'.write (·.trace (.command depth input))) = right
    at hresult hafter
  obtain ⟨result, after⟩ := left
  obtain ⟨result', after'⟩ := right
  cases hresult
  cases result with
  | ok value => exact { hafter with journal := (hafter.journal.hear _ _).trace _ }
  | error e => exact { hafter with journal := (hafter.journal.hear _ _).handleError _ _ _ }

/-! ### The last stage -/

theorem bodyOf_alike (id : String) (arguments : Option Record) (h : scene.Alike scene') :
    (bodyOf id arguments scene).1.map Body.content = (bodyOf id arguments scene').1.map Body.content ∧
      (bodyOf id arguments scene).2.Alike (bodyOf id arguments scene').2 := by
  obtain ⟨hbody, hlibrary⟩ := h.library.instantiate id arguments
  exact ⟨hbody, { h with library := hlibrary }⟩

theorem itemOf_alike (id : String) (arguments : Option Record) (source : Source) (flags : Flags)
    (item : Body standard → Action standard)
    (hitem : ∀ body body', body.content = body'.content → ActionsAlike (item body) (item body'))
    (h : scene.Alike scene') :
    List.Forall₂ ActionsAlike (itemOf id arguments source flags item scene).1
        (itemOf id arguments source flags item scene').1 ∧
      (itemOf id arguments source flags item scene).2.Alike
        (itemOf id arguments source flags item scene').2 := by
  obtain ⟨hbody, hscene⟩ := bodyOf_alike id arguments h
  unfold itemOf
  generalize bodyOf id arguments scene = left at hbody hscene
  generalize bodyOf id arguments scene' = right at hbody hscene
  match left, right with
  | (.ok body, scene), (.ok body', scene') =>
    exact ⟨.cons (hitem body body' (Except.ok.inj hbody)) .nil, hscene⟩
  | (.error e, scene), (.error e', scene') =>
    cases hbody
    exact ⟨.nil, { hscene with journal := hscene.journal.handleError _ _ _ }⟩
  | (.ok _, _), (.error _, _) => cases hbody
  | (.error _, _), (.ok _, _) => cases hbody

theorem carryOut_alike (level : Level) (e : Executor) (flags : Flags) (source : Source)
    (h : scene.Alike scene') :
    List.Forall₂ ActionsAlike (carryOut level e flags source scene).1
        (carryOut level e flags source scene').1 ∧
      (carryOut level e flags source scene).2.Alike (carryOut level e flags source scene').2 := by
  cases e with
  | «return» value => exact ⟨.nil, (h.hear ..).hear ..⟩
  | function id arguments =>
    refine itemOf_alike id arguments source flags _ (fun body body' hbody => ?_) h
    split
    · exact .call hbody ..
    · exact .call hbody ..
  | trigger id =>
    exact itemOf_alike id none source flags _ (fun body body' hbody => .isolated hbody source) h

theorem carryOutAll_alike (level : Level) (e : Executor) (flags : Flags) (sources : List Source)
    (h : scene.Alike scene') :
    List.Forall₂ ActionsAlike (carryOutAll level e flags sources scene).1
        (carryOutAll level e flags sources scene').1 ∧
      (carryOutAll level e flags sources scene).2.Alike
        (carryOutAll level e flags sources scene').2 := by
  induction sources generalizing scene scene' with
  | nil => exact ⟨.nil, h⟩
  | cons source rest ih =>
    obtain ⟨hitems, hscene⟩ := carryOut_alike level e flags source h
    obtain ⟨hmore, hlast⟩ := ih hscene
    exact ⟨List.rel_append hitems hmore, hlast⟩

theorem finish_alike (level : Level) (chain : Chain standard) (sources : List Source) (flags : Flags)
    (h : s.Alike s') :
    (finish level chain sources flags s).Alike (finish level chain sources flags s') := by
  unfold finish
  split
  · exact { standing := h, items := actionsAlike_refl _ }
  · match chain.top.executable with
    | some (.custom e) =>
      obtain ⟨hitems, hscene⟩ := carryOutAll_alike level e flags sources h.scene
      exact { standing := h.set hscene, items := hitems }
    | some (.command c) => exact { standing := h, items := actionsAlike_refl _ }
    | none => exact { standing := h, items := .nil }

/-! ### The walk -/

theorem takeOver_alike (starter : Source) (sources : List Source) (chain : Chain standard)
    (flags : Flags) (h : s.Alike s') :
    (takeOver starter sources chain flags s).Alike (takeOver starter sources chain flags s') := by
  unfold takeOver
  split
  · exact { standing := h, items := actionsAlike_refl _ }
  · exact { standing := h, items := actionsAlike_refl _ }

theorem pay_alike (limits : Limits) {next next' : Standing → Upshot} (h : s.Alike s')
    (hnext : ∀ s s', s.Alike s' → (next s).Alike (next' s')) :
    (s.pay limits next).Alike (s'.pay limits next') := by
  unfold Standing.pay
  rw [h.cost]
  split
  · exact hnext _ _ ⟨h.scene, rfl⟩
  · exact { standing := h, items := .nil }

theorem within_alike (activity : Activity) {run run' : Standing → Upshot} (h : s.Alike s')
    (hrun : ∀ s s', s.Alike s' → (run s).Alike (run' s')) :
    (s.within activity run).Alike (s'.within activity run') := by
  have hopened : (s.write (·.openSection activity)).Alike (s'.write (·.openSection activity)) :=
    h.set { h.scene with journal := h.scene.journal.openSection activity }
  have hdone := hrun _ _ hopened
  exact { hdone with
    standing := hdone.standing.set
      { hdone.standing.scene with journal := hdone.standing.scene.journal.closeSection } }

theorem spreadOut_alike (limits : Limits) (modifier : Modifier) (starter : Source)
    (sources : List Source) (flags : Flags) (h : scene.Alike scene') :
    (spreadOut limits modifier starter sources flags scene).1 =
        (spreadOut limits modifier starter sources flags scene').1 ∧
      (spreadOut limits modifier starter sources flags scene).2.Alike
        (spreadOut limits modifier starter sources flags scene').2 := by
  unfold spreadOut
  rw [modify_alike modifier h]
  obtain ⟨hresult, hjournal⟩ := h.journal.spread (modify modifier scene'.host) limits.forks flags
    starter sources [] 0
  exact ⟨hresult, { h with journal := hjournal }⟩

theorem descend_alike (limits : Limits) (level : Level) (starter : Source) (input : String)
    (before : List (Stage standard)) (top : Stage standard) (after : List (Stage standard))
    (sources : List Source) (flags : Flags) (h : s.Alike s') :
    (descend limits level starter input before top after sources flags s).Alike
      (descend limits level starter input before top after sources flags s') := by
  induction after generalizing before top sources flags s s' with
  | nil => exact finish_alike level _ sources flags h
  | cons stage after ih =>
    unfold descend
    dsimp only
    generalize (if top.forks then { flags with forked := true } else flags) = flags
    cases top.redirect with
    | none => exact { standing := h, items := .nil }
    | some redirect =>
      cases redirect with
      | custom r => exact takeOver_alike starter sources _ flags h
      | modifier modifier =>
        refine pay_alike limits h fun s s' h => ?_
        obtain ⟨hresult, hscene⟩ := spreadOut_alike limits modifier starter sources flags h.scene
        rw [← hresult]
        cases (spreadOut limits modifier starter sources flags s.scene).1 with
        | stopped => exact { standing := h.set hscene, items := .nil }
        | onward made =>
          cases made with
          | nil => exact finish_alike level _ [] flags (h.set hscene)
          | cons source rest => exact ih _ _ _ _ (h.set hscene)

/-! ### Any action -/

theorem call_alike (limits : Limits) (level : Level) {body body' : Body standard}
    (hbody : body.content = body'.content) (returns : Callback) (shared : Bool) (source : Source)
    (h : s.Alike s') :
    (upshot limits level (.call body returns shared source) s).Alike
      (upshot limits level (.call body' returns shared source) s') := by
  obtain ⟨hid, hlines⟩ := Prod.mk.inj hbody
  unfold upshot
  refine pay_alike limits h fun s s' h => ?_
  rw [hid, hlines]
  exact {
    standing := h.set { h.scene with journal := h.scene.journal.trace _ }
    items := actionsAlike_refl _ }

/-- What an action comes to does not show what is observed. -/
theorem upshot_alike (limits : Limits) (level : Level) {action action' : Action standard}
    (haction : ActionsAlike action action') (h : s.Alike s') :
    (upshot limits level action s).Alike (upshot limits level action' s') := by
  cases haction with
  | call hbody returns shared source => exact call_alike limits level hbody returns shared source h
  | isolated hbody source => exact { standing := h, items := .cons (.call hbody ..) .nil }
  | same =>
    cases action with
    | walk chain starter sources flags =>
      exact within_alike _ h fun s s' h => descend_alike _ _ _ _ _ _ _ _ _ h
    | execute input command flags source =>
      refine within_alike _ h fun s s' h => pay_alike limits h fun s s' h => ?_
      exact { standing := h.set (settle_alike _ _ _ _ _ h.scene), items := .nil }
    | call body returns shared source => exact call_alike limits level rfl returns shared source h
    | isolated body source => exact { standing := h, items := actionsAlike_refl _ }
    | fallthrough => exact { standing := h.set (h.scene.hear ..), items := .nil }

/-! ### Machines -/

inductive TasksAlike : Task (Action standard) → Task (Action standard) → Prop where
  | act {action action' : Action standard} (h : ActionsAlike action action') :
      TasksAlike (.act action) (.act action')
  | fan {items items' : List (Action standard)} (h : List.Forall₂ ActionsAlike items items') :
      TasksAlike (.fan items) (.fan items')

theorem batch_alike {items items' : List (Action standard)}
    (h : List.Forall₂ ActionsAlike items items') :
    List.Forall₂ TasksAlike (Task.batch items) (Task.batch items') := by
  cases h with
  | nil => exact .nil
  | cons hfirst h =>
    cases h with
    | nil => exact .cons (.act hfirst) .nil
    | cons hsecond h =>
      cases h with
      | nil => exact .cons (.act hfirst) (.cons (.act hsecond) .nil)
      | cons hthird h => exact .cons (.act hfirst) (.cons (.fan (.cons hsecond (.cons hthird h))) .nil)

theorem unfolded_alike {items items' : List (Action standard)}
    (h : List.Forall₂ ActionsAlike items items') :
    List.Forall₂ TasksAlike (Task.unfolded items) (Task.unfolded items') := by
  cases h with
  | nil => exact .nil
  | cons hfirst h =>
    cases h with
    | nil => exact .cons (.act hfirst) .nil
    | cons hsecond h => exact .cons (.act hfirst) (.cons (.fan (.cons hsecond h)) .nil)

theorem Upshot.Alike.tasks {u u' : Upshot} (h : u.Alike u') :
    List.Forall₂ TasksAlike u.tasks u'.tasks := by
  unfold Upshot.tasks
  rw [h.atOnce]
  split
  · rw [List.forall₂_map_left_iff, List.forall₂_map_right_iff]
    exact h.items.imp fun _ _ h => .act h
  · exact batch_alike h.items

/-- Machines that run the standard vocabulary in alike scenes. -/
abbrev RigsAlike (m m' : Rig) : Prop := Machine.Alike Scene.Alike TasksAlike m m'

theorem Upshot.Alike.settle {u u' : Upshot} (h : u.Alike u') (frame : Frame) {m m' : Rig}
    (hm : RigsAlike m m') :
    (u.settle frame m).1 = (u'.settle frame m').1 ∧
      RigsAlike (u.settle frame m).2 (u'.settle frame m').2 := by
  have hon : RigsAlike (u.standing.on m) (u'.standing.on m') :=
    hm.on h.standing.scene h.standing.cost
  have hended := hon.discardTimes frame.governor u'.ends
  unfold Upshot.settle
  rw [h.fault, h.ends, h.scope]
  cases u'.fault with
  | some fault => exact ⟨rfl, hon⟩
  | none =>
    refine ⟨rfl, ?_⟩
    dsimp only
    rw [hended.governors]
    cases u'.scope with
    | same => exact hended.pushAll _ h.tasks
    | shared returns => exact hended.pushAll _ h.tasks
    | own returns => exact (hended.govern _).2.pushAll _ h.tasks

theorem lockstep : Machine.Lockstep Scene.Alike TasksAlike (Task.meaning .plain dialect.meaning) where
  hear callback outcome _ _ h := h.hear callback outcome
  step m m' task task' frame hm htask := by
    cases htask with
    | @act action action' haction =>
      have hstanding : (standingOf m).Alike (standingOf m') := ⟨hm.world, hm.cost⟩
      have hupshot := upshot_alike m.limits (levelOf frame) haction hstanding
      simp only [Task.meaning, (meaning_yields _ frame _).exec]
      rw [← hm.limits]
      exact hupshot.settle frame hm
    | fan hitems =>
      simp only [Task.meaning, Task.exec_unfold]
      exact ⟨trivial, hm.pushAll frame (unfolded_alike hitems)⟩

/-! ### Runs -/

theorem weight_action_alike {action action' : Action standard} (h : ActionsAlike action action') :
    action.weight = action'.weight := by
  cases h <;> rfl

theorem weight_task_alike {task task' : Task (Action standard)} (h : TasksAlike task task') :
    task.weight Action.weight = task'.weight Action.weight := by
  cases h with
  | act h => exact weight_action_alike h
  | @fan items items' h =>
    change items.foldr (fun a n => 1 + a.weight + n) 0 = items'.foldr (fun a n => 1 + a.weight + n) 0
    induction h with
    | nil => rfl
    | cons h _ ih => rw [List.foldr_cons, List.foldr_cons, ih, weight_action_alike h]

theorem weight_entries_alike {entries entries' : List (Entry (Task (Action standard)))}
    (h : List.Forall₂ (Machine.EntriesAlike TasksAlike) entries entries') :
    entries.foldr (fun e n => e.action.weight Action.weight + n) 0 =
      entries'.foldr (fun e n => e.action.weight Action.weight + n) 0 := by
  induction h with
  | nil => rfl
  | cons h _ ih => rw [List.foldr_cons, List.foldr_cons, ih, weight_task_alike h.action]

/-- Machines in alike scenes are given the same fuel, and end alike. -/
theorem run_alike {m m' : Rig} (h : RigsAlike m m') :
    (run m).1 = (run m').1 ∧ RigsAlike (run m).2 (run m').2 := by
  have hweight : m.weight (Task.weight Action.weight) = m'.weight (Task.weight Action.weight) :=
    weight_entries_alike (List.rel_append h.queue h.staged)
  have hlongest : m.world.host.library.longest = m'.world.host.library.longest := by
    rw [← Library.longest_unused, ← Library.longest_unused m'.world.host.library,
      h.world.library.same]
  have hallowance : allowance m.limits m.world.host.library =
      allowance m'.limits m'.world.host.library := by
    rw [allowance, allowance, h.limits, hlongest]
  unfold run Machine.fuel
  rw [hweight, hallowance, h.limits, h.cost]
  exact Machine.drain_alike lockstep _ h.splice

end Command

end Trampoline
