import Trampoline.Proofs.Command.Turn
import Trampoline.Proofs.Journal
import Trampoline.Proofs.Machine.Lockstep

/-! Silence hides failures and nothing else.

An action can be silenced: every source it carries becomes silent (`Action.silenced`).
Whatever an action derives from its sources is silent if they are, so a silenced action
wants the items of the other one, silenced (`upshot_silenced`), and what it writes into
its journal is the same but for the failures shown (`Journal.Muted`). So the two run in
lockstep (`muffled`), and a silent submission shows what the other one shows without its
failures (`silent_run`). -/
namespace Trampoline

open Command (standard)

/-! ### Silent sources -/

namespace Source

@[simp] theorem named_silenced (s : Source) (name : String) :
    s.silenced.named name = (s.named name).silenced := rfl

@[simp] theorem reportingTo_silenced (s : Source) (callback : Callback) :
    s.silenced.reportingTo callback = (s.reportingTo callback).silenced := rfl

@[simp] theorem silenced_silenced (s : Source) : s.silenced.silenced = s.silenced := rfl

end Source

namespace Action

variable {V : Vocabulary}

/-- The same action for silent sources. -/
def silenced : Action V → Action V
  | .walk chain starter sources flags =>
    .walk chain starter.silenced (sources.map Source.silenced) flags
  | .execute input command flags source => .execute input command flags source.silenced
  | .call body returns shared source => .call body returns shared source.silenced
  | .isolated body source => .isolated body source.silenced
  | .fallthrough => .fallthrough

@[simp] theorem silenced_command (chain : Chain V) (source : Source) :
    (command chain source).silenced = command chain source.silenced := rfl

@[simp] theorem silenced_outerCall (body : Body V) (source : Source) (callback : Callback) :
    (outerCall body source callback).silenced = outerCall body source.silenced callback := rfl

@[simp] theorem silenced_line (source : Source) (chain : Chain V) :
    (Dialect.line source chain).silenced = Dialect.line source.silenced chain := rfl

@[simp] theorem silenced_silenced (a : Action V) : a.silenced.silenced = a.silenced := by
  cases a <;> simp [silenced, Function.comp_def]

@[simp] theorem weight_silenced (a : Action V) : a.silenced.weight = a.weight := by
  cases a <;> simp [silenced, weight]

end Action

/-- What a silenced stage makes. -/
def Spread.silenced : Spread → Spread
  | .onward sources => .onward (sources.map Source.silenced)
  | .stopped => .stopped

/-! ### Journals -/

/-- Journals that differ in failures shown since `past`: the second one has none of them. -/
structure Journal.Muted (past : List OutputLine) (loud quiet : Journal) : Prop where
  traced : quiet.traced = loud.traced
  profiled : quiet.profiled = loud.profiled
  happenings : quiet.happenings = loud.happenings
  shown : ∃ new, loud.shown = past ++ new ∧
    quiet.shown = past ++ new.filter fun line => !line.isFailure

namespace Journal

variable {past : List OutputLine} {j j' : Journal}

theorem Muted.refl (j : Journal) : Muted j.shown j j :=
  ⟨rfl, rfl, rfl, [], (List.append_nil _).symm, (List.append_nil _).symm⟩

theorem shown_display (j : Journal) (line : OutputLine) :
    (j.display line).shown = j.shown ++ [line] := by
  simp [shown, display]

namespace Muted

/-- A line that is no failure is shown in both. -/
theorem display (h : Muted past j j') {line : OutputLine} (hline : line.isFailure = false) :
    Muted past (j.display line) (j'.display line) := by
  obtain ⟨new, hloud, hquiet⟩ := h.shown
  refine { h with shown := ⟨new ++ [line], ?_, ?_⟩ }
  · rw [shown_display, hloud, List.append_assoc]
  · rw [shown_display, hquiet, List.append_assoc, List.filter_append]
    simp [hline]

/-- A failure is shown in one of them only. -/
theorem displayFailure (h : Muted past j j') {line : OutputLine} (hline : line.isFailure = true) :
    Muted past (j.display line) j' := by
  obtain ⟨new, hloud, hquiet⟩ := h.shown
  refine { h with shown := ⟨new ++ [line], ?_, ?_⟩ }
  · rw [shown_display, hloud, List.append_assoc]
  · rw [hquiet, List.filter_append]
    simp [hline]

theorem add (h : Muted past j j') (happening : Happening) :
    Muted past (j.add happening) (j'.add happening) :=
  { h with happenings := congrArg (happening :: ·) h.happenings }

theorem trace (h : Muted past j j') (event : Trace.Event) :
    Muted past (j.trace event) (j'.trace event) := by
  unfold Journal.trace
  rw [h.traced]
  split
  · exact h.add _
  · exact h

theorem openSection (h : Muted past j j') (activity : Activity) :
    Muted past (j.openSection activity) (j'.openSection activity) := by
  unfold Journal.openSection
  rw [h.profiled]
  split
  · exact h.add _
  · exact h

theorem closeSection (h : Muted past j j') : Muted past j.closeSection j'.closeSection := by
  unfold Journal.closeSection
  rw [h.profiled]
  split
  · exact h.add _
  · exact h

theorem hear (h : Muted past j j') (callback : Callback) (outcome : Outcome) :
    Muted past (j.hear callback outcome) (j'.hear callback outcome) := by
  unfold Journal.hear
  induction callback.listeners generalizing j j' with
  | nil => exact h
  | cons listener rest ih => exact ih (h.add _)

/-- A silent source meets its errors as any other, and shows none of them. -/
theorem handleError (h : Muted past j j') (source : Source) (e : CommandError) (forked : Bool) :
    Muted past (j.handleError source e forked) (j'.handleError source.silenced e forked) := by
  have htraced : Muted past (if j.traced then j.trace (.error e.describe) else j)
      (if j'.traced then j'.trace (.error e.describe) else j') := by
    rw [h.traced]
    split
    · exact h.trace _
    · exact h
  have hquiet : (forked || source.silenced.silent) = true := Bool.or_true _
  unfold Journal.handleError
  dsimp only
  rw [if_pos hquiet]
  split
  · exact htraced
  · exact htraced.displayFailure rfl

/-- A stage makes the same of its sources when they are silent, if its modifier does. -/
theorem spread (h : Muted past j j') {modify : Source → Except CommandError (List Source)}
    (hmodify : ∀ s, modify s.silenced = (modify s).map (List.map Source.silenced)) (limit : Nat)
    (flags : Flags) (starter : Source) (sources made : List Source) (count : Nat) :
    (Trampoline.spread modify limit flags starter.silenced (sources.map Source.silenced)
          (made.map Source.silenced) count j').1 =
        (Trampoline.spread modify limit flags starter sources made count j).1.silenced ∧
      Muted past (Trampoline.spread modify limit flags starter sources made count j).2
        (Trampoline.spread modify limit flags starter.silenced (sources.map Source.silenced)
          (made.map Source.silenced) count j').2 := by
  induction sources generalizing made count j j' with
  | nil => exact ⟨by simp [Trampoline.spread, Spread.silenced], h⟩
  | cons source rest ih =>
    rw [List.map_cons, Trampoline.spread, Trampoline.spread, hmodify]
    cases modify source with
    | ok produced =>
      simp only [Except.map, List.length_map]
      split
      · exact ⟨rfl, h.handleError ..⟩
      · have hmade : (produced.map Source.silenced).reverseAux (made.map Source.silenced) =
            (produced.reverseAux made).map Source.silenced := by
          simp [List.reverseAux_eq]
        rw [hmade]
        exact ih h ..
    | error e =>
      simp only [Except.map]
      split
      · exact ih (h.handleError ..) ..
      · exact ⟨rfl, h.handleError ..⟩

end Muted

end Journal

/-- Scenes with muted journals and one host. -/
structure Scene.Muted (past : List OutputLine) (loud quiet : Scene Host) : Prop where
  journal : loud.journal.Muted past quiet.journal
  host : quiet.host = loud.host

variable {past : List OutputLine}

theorem Scene.Muted.hear {s s' : Scene Host} (h : s.Muted past s') (callback : Callback)
    (outcome : Outcome) :
    Scene.Muted past (Audience.hear callback outcome s) (Audience.hear callback outcome s') :=
  { h with journal := h.journal.hear callback outcome }

namespace Command

structure Standing.Muted (past : List OutputLine) (loud quiet : Standing) : Prop where
  scene : loud.scene.Muted past quiet.scene
  cost : quiet.cost = loud.cost

/-- The upshot of a silenced action, beside that of the action. -/
structure Upshot.Muted (past : List OutputLine) (loud quiet : Upshot) : Prop where
  standing : loud.standing.Muted past quiet.standing
  items : quiet.items = loud.items.map Action.silenced
  fault : quiet.fault = loud.fault := by rfl
  ends : quiet.ends = loud.ends := by rfl
  scope : quiet.scope = loud.scope := by rfl
  atOnce : quiet.atOnce = loud.atOnce := by rfl

variable {scene scene' : Scene Host} {s s' : Standing}

theorem Standing.Muted.set (h : s.Muted past s') (hscene : scene.Muted past scene') :
    Standing.Muted past { s with scene } { s' with scene := scene' } :=
  ⟨hscene, h.cost⟩

/-! ### Commands -/

theorem modify_silenced (modifier : Modifier) (host : Host) (source : Source) :
    modify modifier host source.silenced =
      (modify modifier host source).map (List.map Source.silenced) := by
  cases modifier with
  | rename names => simp [modify, Except.map, Function.comp_def]
  | silence => rfl
  | filter condition => by_cases h : condition.holds host.counters <;> simp [modify, Except.map, h]

theorem perform_silenced (verb : Verb) (source : Source) (h : scene.Muted past scene') :
    (perform verb source.silenced scene').1 = (perform verb source scene).1 ∧
      (perform verb source scene).2.Muted past (perform verb source.silenced scene').2 := by
  cases verb with
  | say text => exact ⟨rfl, { h with journal := h.journal.display rfl }⟩
  | getCounter name => exact ⟨by simp only [perform, h.host], h⟩
  | addCounter name delta =>
    exact ⟨by simp only [perform, h.host], { h with host := by simp only [perform, h.host] }⟩
  | setCounter name value => exact ⟨rfl, { h with host := by simp only [perform, h.host] }⟩
  | fail text => exact ⟨rfl, h⟩
  | test condition => exact ⟨by simp only [perform, h.host], h⟩

theorem settle_silenced (depth : Nat) (input : String) (verb : Verb) (flags : Flags)
    (source : Source) (h : scene.Muted past scene') :
    (dialect.settle depth input verb flags source scene).Muted past
      (dialect.settle depth input verb flags source.silenced scene') := by
  have htraced : (scene.write (·.trace (.command depth input))).Muted past
      (scene'.write (·.trace (.command depth input))) :=
    { h with journal := h.journal.trace _ }
  obtain ⟨hresult, hafter⟩ := perform_silenced verb source htraced
  have hperform : dialect.perform = perform := rfl
  simp only [Dialect.settle, hperform]
  generalize perform verb source (scene.write (·.trace (.command depth input))) = loud
    at hresult hafter
  generalize perform verb source.silenced (scene'.write (·.trace (.command depth input))) = quiet
    at hresult hafter
  obtain ⟨result, after⟩ := loud
  obtain ⟨result', after'⟩ := quiet
  cases hresult
  cases result with
  | ok value => exact { hafter with journal := (hafter.journal.hear _ _).trace _ }
  | error e => exact { hafter with journal := (hafter.journal.hear _ _).handleError _ _ _ }

/-! ### The last stage -/

theorem finalists_silenced (returns : Callback) (flags : Flags) (sources : List Source) :
    finalists returns flags (sources.map Source.silenced) =
      (finalists returns flags sources).map Source.silenced := by
  unfold finalists
  split
  · simp only [← List.map_take, List.map_map, Function.comp_def, Source.reportingTo_silenced]
    rfl
  · rfl

theorem bodyOf_silenced (id : String) (arguments : Option Record) (h : scene.Muted past scene') :
    (bodyOf id arguments scene').1 = (bodyOf id arguments scene).1 ∧
      (bodyOf id arguments scene).2.Muted past (bodyOf id arguments scene').2 := by
  unfold bodyOf
  rw [h.host]
  exact ⟨rfl, { h with host := rfl }⟩

theorem itemOf_silenced (id : String) (arguments : Option Record) (source : Source) (flags : Flags)
    {item item' : Body standard → Action standard} (hitem : ∀ body, item' body = (item body).silenced)
    (h : scene.Muted past scene') :
    (itemOf id arguments source.silenced flags item' scene').1 =
        (itemOf id arguments source flags item scene).1.map Action.silenced ∧
      (itemOf id arguments source flags item scene).2.Muted past
        (itemOf id arguments source.silenced flags item' scene').2 := by
  obtain ⟨hbody, hscene⟩ := bodyOf_silenced id arguments h
  unfold itemOf
  generalize bodyOf id arguments scene = loud at hbody hscene
  generalize bodyOf id arguments scene' = quiet at hbody hscene
  obtain ⟨body, after⟩ := loud
  obtain ⟨body', after'⟩ := quiet
  cases hbody
  cases body with
  | ok body => exact ⟨congrArg (fun action => [action]) (hitem body), hscene⟩
  | error e => exact ⟨rfl, { hscene with journal := hscene.journal.handleError _ _ _ }⟩

theorem carryOut_silenced (level : Level) (e : Executor) (flags : Flags) (source : Source)
    (h : scene.Muted past scene') :
    (carryOut level e flags source.silenced scene').1 =
        (carryOut level e flags source scene).1.map Action.silenced ∧
      (carryOut level e flags source scene).2.Muted past
        (carryOut level e flags source.silenced scene').2 := by
  cases e with
  | «return» value => exact ⟨rfl, (h.hear ..).hear ..⟩
  | function id arguments =>
    refine itemOf_silenced id arguments source flags (fun body => ?_) h
    split
    · rfl
    · rfl
  | trigger id => exact itemOf_silenced id none source flags (fun body => rfl) h

theorem carryOutAll_silenced (level : Level) (e : Executor) (flags : Flags) (sources : List Source)
    (h : scene.Muted past scene') :
    (carryOutAll level e flags (sources.map Source.silenced) scene').1 =
        (carryOutAll level e flags sources scene).1.map Action.silenced ∧
      (carryOutAll level e flags sources scene).2.Muted past
        (carryOutAll level e flags (sources.map Source.silenced) scene').2 := by
  induction sources generalizing scene scene' with
  | nil => exact ⟨rfl, h⟩
  | cons source rest ih =>
    obtain ⟨hitems, hscene⟩ := carryOut_silenced level e flags source h
    obtain ⟨hmore, hlast⟩ := ih hscene
    refine ⟨?_, hlast⟩
    simp only [carryOutAll, List.map_cons, List.map_append, hitems, hmore]

theorem finish_silenced (level : Level) (chain : Chain standard) (sources : List Source)
    (flags : Flags) (h : s.Muted past s') :
    (finish level chain sources flags s).Muted past
      (finish level chain (sources.map Source.silenced) flags s') := by
  unfold finish
  rw [List.isEmpty_map]
  split
  · exact { standing := h, items := by split <;> rfl }
  · match chain.top.executable with
    | some (.custom e) =>
      obtain ⟨hitems, hscene⟩ := carryOutAll_silenced level e flags sources h.scene
      exact { standing := h.set hscene, items := hitems, ends := by rw [List.length_map] }
    | some (.command verb) =>
      have hitems : (finalists level.returns flags (sources.map Source.silenced)).map
            (.execute chain.input verb flags) =
          ((finalists level.returns flags sources).map (.execute chain.input verb flags)).map
            Action.silenced := by
        rw [finalists_silenced, List.map_map, List.map_map]
        rfl
      exact { standing := h, items := hitems }
    | none => exact { standing := h, items := rfl }

/-! ### The walk -/

theorem takeOver_silenced (starter : Source) (sources : List Source) (chain : Chain standard)
    (flags : Flags) (h : s.Muted past s') :
    (takeOver starter sources chain flags s).Muted past
      (takeOver starter.silenced (sources.map Source.silenced) chain flags s') := by
  unfold takeOver
  rw [List.isEmpty_map]
  split
  · exact { standing := h, items := by split <;> rfl }
  · exact { standing := h, items := rfl }

theorem pay_silenced (limits : Limits) {next next' : Standing → Upshot} (h : s.Muted past s')
    (hnext : ∀ s s', s.Muted past s' → (next s).Muted past (next' s')) :
    (s.pay limits next).Muted past (s'.pay limits next') := by
  unfold Standing.pay
  rw [h.cost]
  split
  · exact hnext _ _ ⟨h.scene, rfl⟩
  · exact { standing := h, items := rfl }

theorem within_silenced (activity : Activity) {run run' : Standing → Upshot} (h : s.Muted past s')
    (hrun : ∀ s s', s.Muted past s' → (run s).Muted past (run' s')) :
    (s.within activity run).Muted past (s'.within activity run') := by
  have hopened : (s.write (·.openSection activity)).Muted past (s'.write (·.openSection activity)) :=
    h.set { h.scene with journal := h.scene.journal.openSection activity }
  have hdone := hrun _ _ hopened
  exact { hdone with
    standing := hdone.standing.set
      { hdone.standing.scene with journal := hdone.standing.scene.journal.closeSection } }

theorem spreadOut_silenced (limits : Limits) (modifier : Modifier) (starter : Source)
    (sources : List Source) (flags : Flags) (h : scene.Muted past scene') :
    (spreadOut limits modifier starter.silenced (sources.map Source.silenced) flags scene').1 =
        (spreadOut limits modifier starter sources flags scene).1.silenced ∧
      (spreadOut limits modifier starter sources flags scene).2.Muted past
        (spreadOut limits modifier starter.silenced (sources.map Source.silenced) flags scene').2 := by
  unfold spreadOut
  rw [h.host]
  obtain ⟨hresult, hjournal⟩ := h.journal.spread (modify_silenced modifier scene.host) limits.forks
    flags starter sources [] 0
  exact ⟨hresult, ⟨hjournal, rfl⟩⟩

theorem descend_silenced (limits : Limits) (level : Level) (starter : Source) (input : String)
    (before : List (Stage standard)) (top : Stage standard) (after : List (Stage standard))
    (sources : List Source) (flags : Flags) (h : s.Muted past s') :
    (descend limits level starter input before top after sources flags s).Muted past
      (descend limits level starter.silenced input before top after (sources.map Source.silenced)
        flags s') := by
  induction after generalizing before top sources flags s s' with
  | nil => exact finish_silenced level _ sources flags h
  | cons stage after ih =>
    unfold descend
    dsimp only
    generalize (if top.forks then { flags with forked := true } else flags) = flags
    cases top.redirect with
    | none => exact { standing := h, items := rfl }
    | some redirect =>
      cases redirect with
      | custom r => exact takeOver_silenced starter sources _ flags h
      | modifier modifier =>
        refine pay_silenced limits h fun s s' h => ?_
        obtain ⟨hresult, hscene⟩ :=
          spreadOut_silenced limits modifier starter sources flags h.scene
        rw [hresult]
        cases (spreadOut limits modifier starter sources flags s.scene).1 with
        | stopped => exact { standing := h.set hscene, items := rfl }
        | onward made =>
          cases made with
          | nil => exact finish_silenced level _ [] flags (h.set hscene)
          | cons source rest => exact ih _ _ (source :: rest) _ (h.set hscene)

/-! ### Any action -/

/-- **A silenced action comes to what the action comes to, for silent sources and without the
failures.** -/
theorem upshot_silenced (limits : Limits) (level : Level) (action : Action standard)
    (h : s.Muted past s') :
    (upshot limits level action s).Muted past (upshot limits level action.silenced s') := by
  cases action with
  | walk chain starter sources flags =>
    exact within_silenced _ h fun s s' h => descend_silenced _ _ _ _ _ _ _ _ _ h
  | execute input verb flags source =>
    refine within_silenced _ h fun s s' h => pay_silenced limits h fun s s' h => ?_
    exact { standing := h.set (settle_silenced _ _ _ _ _ h.scene), items := rfl }
  | call body returns shared source =>
    simp only [upshot, Action.silenced]
    refine pay_silenced limits h fun s s' h => ?_
    have hlines : body.lines.map (Dialect.line source.silenced) =
        (body.lines.map (Dialect.line source)).map Action.silenced := by
      simp [Function.comp_def]
    exact {
      standing := h.set { h.scene with journal := h.scene.journal.trace _ }
      items := hlines }
  | isolated body source => exact { standing := h, items := rfl }
  | fallthrough => exact { standing := h.set (h.scene.hear ..), items := rfl }

/-! ### Machines -/

/-- Tasks of which one is the other, silenced. -/
def TasksMuted (task task' : Task (Action standard)) : Prop := task' = task.map Action.silenced

/-- Machines that run the same work in muted scenes, for silent sources on one of them. -/
abbrev RigsMuted (past : List OutputLine) (m m' : Rig) : Prop :=
  Machine.Alike (Scene.Muted past) TasksMuted m m'

theorem batch_map (items : List (Action standard)) :
    Task.batch (items.map Action.silenced) = (Task.batch items).map (Task.map Action.silenced) := by
  match items with
  | [] => rfl
  | [_] => rfl
  | [_, _] => rfl
  | _ :: _ :: _ :: _ => rfl

theorem unfolded_map (items : List (Action standard)) :
    Task.unfolded (items.map Action.silenced) =
      (Task.unfolded items).map (Task.map Action.silenced) := by
  match items with
  | [] => rfl
  | [_] => rfl
  | _ :: _ :: _ => rfl

theorem tasksMuted_map (tasks : List (Task (Action standard))) :
    List.Forall₂ TasksMuted tasks (tasks.map (Task.map Action.silenced)) := by
  rw [List.forall₂_map_right_iff]
  exact List.forall₂_same.mpr fun task _ => rfl

variable {m m' : Rig} {u u' : Upshot}

theorem Upshot.Muted.tasks (h : u.Muted past u') : List.Forall₂ TasksMuted u.tasks u'.tasks := by
  have htasks : u'.tasks = u.tasks.map (Task.map Action.silenced) := by
    unfold Upshot.tasks
    rw [h.atOnce, h.items]
    split
    · rw [List.map_map, List.map_map]
      rfl
    · exact batch_map u.items
  rw [htasks]
  exact tasksMuted_map u.tasks

theorem Upshot.Muted.settle (h : u.Muted past u') (frame : Frame) (hm : RigsMuted past m m') :
    (u.settle frame m).1 = (u'.settle frame m').1 ∧
      RigsMuted past (u.settle frame m).2 (u'.settle frame m').2 := by
  have hon : RigsMuted past (u.standing.on m) (u'.standing.on m') :=
    hm.on h.standing.scene h.standing.cost.symm
  have hended := hon.discardTimes frame.governor u.ends
  unfold Upshot.settle
  rw [h.fault, h.ends, h.scope]
  cases u.fault with
  | some fault => exact ⟨rfl, hon⟩
  | none =>
    refine ⟨rfl, ?_⟩
    dsimp only
    rw [hended.governors]
    cases u.scope with
    | same => exact hended.pushAll _ h.tasks
    | shared returns => exact hended.pushAll _ h.tasks
    | own returns => exact (hended.govern _).2.pushAll _ h.tasks

theorem muffled (past : List OutputLine) :
    Machine.Lockstep (Scene.Muted past) TasksMuted taskMeaning where
  hear callback outcome _ _ h := h.hear callback outcome
  step m m' task task' frame hm htask := by
    subst htask
    cases task with
    | act action =>
      have hstanding : (standingOf m).Muted past (standingOf m') := ⟨hm.world, hm.cost.symm⟩
      have hupshot := upshot_silenced m.limits (levelOf frame) action hstanding
      simp only [Task.map, Task.meaning, (meaning_yields _ frame _).exec]
      rw [← hm.limits]
      exact hupshot.settle frame hm
    | fan items =>
      simp only [Task.map, Task.meaning, Task.exec_unfold, unfolded_map]
      exact ⟨trivial, hm.pushAll frame (tasksMuted_map _)⟩

/-! ### Runs -/

/-- All the sources it carries are silent. -/
def Silent (task : Task (Action standard)) : Prop := task.map Action.silenced = task

theorem silent_map (task : Task (Action standard)) : Silent (task.map Action.silenced) := by
  cases task with
  | act action => simp [Silent, Task.map]
  | fan items => simp [Silent, Task.map, Function.comp_def]

theorem silent_of_mem {entries entries' : List (Entry (Task (Action standard)))}
    (h : List.Forall₂ (Machine.EntriesAlike TasksMuted) entries entries')
    {e : Entry (Task (Action standard))} (he : e ∈ entries') : Silent e.action := by
  induction h with
  | nil => cases he
  | cons h _ ih =>
    cases he with
    | head =>
      rw [h.action]
      exact silent_map _
    | tail _ he => exact ih he

theorem weight_map_silenced (task : Task (Action standard)) :
    (task.map Action.silenced).weight Action.weight = task.weight Action.weight := by
  cases task with
  | act action => exact action.weight_silenced
  | fan items => simp [Task.map, Task.weight, List.foldr_map]

theorem weight_entries_muted {entries entries' : List (Entry (Task (Action standard)))}
    (h : List.Forall₂ (Machine.EntriesAlike TasksMuted) entries entries') :
    entries.foldr (fun e n => e.action.weight Action.weight + n) 0 =
      entries'.foldr (fun e n => e.action.weight Action.weight + n) 0 := by
  induction h with
  | nil => rfl
  | cons h _ ih => rw [List.foldr_cons, List.foldr_cons, ih, h.action, weight_map_silenced]

theorem run_muted (h : RigsMuted past m m') :
    (run m).1 = (run m').1 ∧ RigsMuted past (run m).2 (run m').2 := by
  have hweight : m.weight (Task.weight Action.weight) = m'.weight (Task.weight Action.weight) :=
    weight_entries_muted (List.rel_append h.queue h.staged)
  unfold run Machine.fuel
  rw [hweight, h.limits, h.cost, h.world.host]
  exact Machine.drain_alike (muffled past) _ h.splice

/-- A submission made by a silent source runs beside the same one made aloud. -/
theorem submitted_muted (limits : Limits) (world : Scene Host) (callback : Callback)
    (action : Action standard) :
    RigsMuted world.journal.shown (submitted limits world callback action)
      (submitted limits world callback action.silenced) := by
  have hidle : RigsMuted world.journal.shown { limits, world } { limits, world } := {
    limits := rfl
    world := ⟨.refl _, rfl⟩
    cost := rfl
    queue := .nil
    staged := .nil
    governors := rfl
    byDepth := rfl
    overflow := rfl
    depth := rfl
    deepest := rfl }
  exact (hidle.governorAt 0).2.push _ rfl

/-- What a source can submit. -/
inductive Submission where
  | command (chain : Chain standard)
  | call (body : Body standard) (returns : Callback)

def Submission.action (submission : Submission) (source : Source) : Action standard :=
  match submission with
  | .command chain => .command chain source
  | .call body returns => .outerCall body source returns

theorem Submission.action_silenced (submission : Submission) (source : Source) :
    submission.action source.silenced = (submission.action source).silenced := by
  cases submission with
  | command chain => exact (Action.silenced_command chain source).symm
  | call body returns => exact (Action.silenced_outerCall body source returns).symm

/-- **Silence only hides failures.** Submitted by a silent source, a command or a call ends as it
otherwise would, at the same cost and with the same host; the same outcomes are heard, the same
events traced, and the same lines shown, but for the failures. Whatever waits in that run waits for
silent sources. -/
theorem silent_run (limits : Limits) (world : Scene Host) (callback : Callback)
    (submission : Submission) (source : Source) :
    let loud := submitted limits world callback (submission.action source)
    let quiet := submitted limits world callback (submission.action source.silenced)
    (run quiet).1 = (run loud).1 ∧
      (run quiet).2.cost = (run loud).2.cost ∧
      (run quiet).2.world.host = (run loud).2.world.host ∧
      (run quiet).2.world.journal.happenings = (run loud).2.world.journal.happenings ∧
      (∃ new, (run loud).2.world.journal.shown = world.journal.shown ++ new ∧
        (run quiet).2.world.journal.shown =
          world.journal.shown ++ new.filter fun line => !line.isFailure) ∧
      ∀ turns, ∀ e ∈ (Machine.run taskMeaning turns quiet).2.queue.toList, Silent e.action := by
  intro loud quiet
  have hsubmitted : RigsMuted world.journal.shown loud quiet := by
    have h := submitted_muted limits world callback (submission.action source)
    rwa [← submission.action_silenced source] at h
  obtain ⟨hending, hrig⟩ := run_muted hsubmitted
  refine ⟨hending.symm, hrig.cost.symm, hrig.world.host, hrig.world.journal.happenings,
    hrig.world.journal.shown, fun turns e he => ?_⟩
  obtain ⟨-, hturns⟩ := Machine.drain_alike (muffled world.journal.shown) turns hsubmitted.splice
  exact silent_of_mem hturns.queue he

end Command

end Trampoline
