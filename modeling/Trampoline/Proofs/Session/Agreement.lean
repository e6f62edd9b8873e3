import Trampoline.Proofs.Command.Unobserved
import Trampoline.Session

/-! What a submission depends on.

Two sessions agree if they have the same counters and limits, libraries that differ in
the bodies kept only, and nothing left to show. Whether runs are traced or profiled,
what the recorder and the profile hold, and everything that was submitted before may
differ. A submission gives the same report in both, and they agree again after it
(`execute_agrees`); so this holds of commands and of calls (`reports_agree`). -/
namespace Trampoline

open Command (standard)

namespace Session

structure Agrees (s s' : Session) : Prop where
  counters : s.host.counters = s'.host.counters
  library : s.host.library.Alike s'.host.library
  limits : s.limits = s'.limits
  shown : s.output = []
  shown' : s'.output = []

/-- Submissions that were refused alike, or are alike. -/
inductive SubmissionsAlike : Except CommandError (Action standard) →
    Except CommandError (Action standard) → Prop where
  | refused (e : CommandError) : SubmissionsAlike (.error e) (.error e)
  | given {action action' : Action standard} (h : Command.ActionsAlike action action') :
      SubmissionsAlike (.ok action) (.ok action')

theorem submissionsAlike_refl (submission : Except CommandError (Action standard)) :
    SubmissionsAlike submission submission := by
  cases submission with
  | error e => exact .refused e
  | ok action => exact .given (.same action)

variable {s s' : Session}

/-! ### One run -/

theorem heard_happenings (j : Journal) : heard j.happenings.reverse = j.heard.map Prod.snd := by
  rw [heard, Journal.heard, List.map_filterMap]
  refine congrArg (fun f => List.filterMap f j.happenings.reverse) (funext fun happening => ?_)
  cases happening <;> rfl

/-- The machine that an action is run on. -/
def machine (s : Session) (traced profiled : Bool) (action : Action standard) : Command.Rig :=
  ({ limits := s.limits, world := ⟨{ traced, profiled, output := s.output }, s.host⟩ } :
    Command.Rig).submit listener (.act action)

theorem machine_alike (h : s.Agrees s') (traced profiled traced' profiled' : Bool)
    {action action' : Action standard} (haction : Command.ActionsAlike action action') :
    Command.RigsAlike (s.machine traced profiled action) (s'.machine traced' profiled' action') := by
  have hidle : Command.RigsAlike
      { limits := s.limits, world := ⟨{ traced, profiled, output := s.output }, s.host⟩ }
      { limits := s'.limits
        world := ⟨{ traced := traced', profiled := profiled', output := s'.output }, s'.host⟩ } := {
    limits := h.limits
    world := ⟨⟨by rw [h.shown, h.shown']; rfl, rfl⟩, h.counters, h.library⟩
    cost := rfl
    queue := .nil
    staged := .nil
    governors := rfl
    byDepth := rfl
    overflow := rfl
    depth := rfl
    deepest := rfl }
  obtain ⟨hgovernor, hgoverned⟩ := hidle.governorAt 0
  unfold machine Machine.submit
  dsimp only
  rw [hgovernor]
  exact hgoverned.push _ (.act haction)

theorem runAction_eq {traced profiled : Bool} {action : Action standard} {ending : Ending}
    {m : Command.Rig} (h : Command.run (s.machine traced profiled action) = (ending, m)) :
    s.runAction traced profiled action = (ending, m.cost, m.world.journal.happenings.reverse,
      { s with host := m.world.host, output := m.world.journal.output }) := by
  unfold machine at h
  unfold runAction
  dsimp only
  rw [h]
  rfl

/-- A run as sessions see it: how it ended, what it cost, what was heard, and what it left. -/
structure RunsAlike (run run' : Ending × Nat × List Happening × Session) : Prop where
  ending : run.1 = run'.1
  cost : run.2.1 = run'.2.1
  heard : heard run.2.2.1 = heard run'.2.2.1
  counters : run.2.2.2.host.counters = run'.2.2.2.host.counters
  library : run.2.2.2.host.library.Alike run'.2.2.2.host.library
  limits : run.2.2.2.limits = run'.2.2.2.limits
  output : run.2.2.2.output = run'.2.2.2.output

theorem runAction_alike (h : s.Agrees s') (traced profiled traced' profiled' : Bool)
    {action action' : Action standard} (haction : Command.ActionsAlike action action') :
    RunsAlike (s.runAction traced profiled action) (s'.runAction traced' profiled' action') := by
  obtain ⟨hending, hrig⟩ := Command.run_alike
    (machine_alike h traced profiled traced' profiled' haction)
  generalize hrun : Command.run (s.machine traced profiled action) = after at hending hrig
  generalize hrun' : Command.run (s'.machine traced' profiled' action') = after' at hending hrig
  obtain ⟨ending, m⟩ := after
  obtain ⟨ending', m'⟩ := after'
  have hjournal := hrig.world.journal
  rw [runAction_eq hrun, runAction_eq hrun']
  exact {
    ending := hending
    cost := hrig.cost
    heard := by rw [heard_happenings, heard_happenings, hjournal.heard]
    counters := hrig.world.counters
    library := hrig.world.library
    limits := h.limits
    output := List.reverse_injective hjournal.shown }

/-! ### Submissions -/

/-- What is recorded of a run leaves the rest of the session alone. -/
theorem foldl_observe (happenings : List Happening) (s : Session) :
    (happenings.foldl observe s).host = s.host ∧ (happenings.foldl observe s).limits = s.limits ∧
      (happenings.foldl observe s).output = s.output := by
  induction happenings generalizing s with
  | nil => exact ⟨rfl, rfl, rfl⟩
  | cons happening rest ih =>
    obtain ⟨hhost, hlimits, houtput⟩ := ih (s.observe happening)
    have hone : (s.observe happening).host = s.host ∧ (s.observe happening).limits = s.limits ∧
        (s.observe happening).output = s.output := by
      cases happening <;> exact ⟨rfl, rfl, rfl⟩
    exact ⟨hhost.trans hone.1, hlimits.trans hone.2.1, houtput.trans hone.2.2⟩

/-- A submission that is not refused, read off its run. -/
theorem execute_ok (s : Session) (action : Action standard)
    {run : Ending × Nat × List Happening × Session}
    (hrun : runAction { s with recorder := s.recorder.start s.clock } s.observation.enabled
      s.observation.profiling action = run) :
    (s.execute (.ok action)).1 = {
        outcome := (heard run.2.2.1).getLast?, cost := run.2.1, deepest := run.1.depth
        output := run.2.2.2.output.reverse, abort := run.1.fault? } ∧
      (s.execute (.ok action)).2.host = run.2.2.2.host ∧
        (s.execute (.ok action)).2.limits = run.2.2.2.limits ∧
          (s.execute (.ok action)).2.output = [] := by
  obtain ⟨ending, cost, happenings, after⟩ := run
  obtain ⟨hhost, hlimits, houtput⟩ := foldl_observe happenings after
  unfold execute takeOutput
  dsimp only
  rw [hrun]
  dsimp only
  exact ⟨by rw [houtput], hhost, hlimits, rfl⟩

theorem execute_agrees (h : s.Agrees s')
    {submission submission' : Except CommandError (Action standard)}
    (hsubmission : SubmissionsAlike submission submission') :
    (s.execute submission).1 = (s'.execute submission').1 ∧
      (s.execute submission).2.Agrees (s'.execute submission').2 := by
  cases hsubmission with
  | refused e =>
    unfold execute emit takeOutput
    dsimp only
    rw [h.shown, h.shown']
    exact ⟨rfl, h.counters, h.library, h.limits, rfl, rfl⟩
  | @given action action' haction =>
    have hstarted : Agrees { s with recorder := s.recorder.start s.clock }
        { s' with recorder := s'.recorder.start s'.clock } :=
      ⟨h.counters, h.library, h.limits, h.shown, h.shown'⟩
    have hruns := runAction_alike hstarted s.observation.enabled s.observation.profiling
      s'.observation.enabled s'.observation.profiling haction
    obtain ⟨hreport, hhost, hlimits, houtput⟩ := execute_ok s action rfl
    obtain ⟨hreport', hhost', hlimits', houtput'⟩ := execute_ok s' action' rfl
    refine ⟨?_, ?_, ?_, ?_, houtput, houtput'⟩
    · rw [hreport, hreport', hruns.heard, hruns.cost, hruns.ending, hruns.output]
    · rw [hhost, hhost']
      exact hruns.counters
    · rw [hhost, hhost']
      exact hruns.library
    · rw [hlimits, hlimits']
      exact hruns.limits

/-- A line that is refused leaves the session as it was, with its output taken. -/
theorem runCommand_refused (s : Session) {input : String} {e : CommandError}
    (h : Command.parse console.permission input = .error e) :
    (s.runCommand input).2 = { s with output := [] } := by
  unfold runCommand
  rw [h]
  rfl

/-- The body of a call is found alike. -/
theorem bodyFor_alike {l l' : Library} (h : l.Alike l') (id : String) (arguments : Option String) :
    (bodyFor l id arguments).1.map Body.content = (bodyFor l' id arguments).1.map Body.content ∧
      (bodyFor l id arguments).2.Alike (bodyFor l' id arguments).2 := by
  unfold bodyFor
  rcases h.find? id with ⟨hnone, hnone'⟩ | ⟨f, f', hf, hf', -⟩
  · rw [hnone, hnone']
    exact ⟨rfl, h⟩
  · rw [hf, hf']
    cases arguments.mapM Record.ofText with
    | error e => exact ⟨rfl, h⟩
    | ok record => exact h.instantiate id record

/-- Calls of bodies that read the same are submitted alike. -/
theorem calls_alike {body body' : Except CommandError (Body standard)}
    (h : body.map Body.content = body'.map Body.content) :
    SubmissionsAlike (body.map fun body => .outerCall body console listener)
      (body'.map fun body => .outerCall body console listener) := by
  match body, body', h with
  | .error e, .error e', h =>
    cases h
    exact .refused e
  | .ok body, .ok body', h => exact .given (.call (Except.ok.inj h) ..)
  | .error e, .ok body', h => cases h
  | .ok body, .error e', h => cases h

theorem runCommand_agrees (h : s.Agrees s') (input : String) :
    (s.runCommand input).1 = (s'.runCommand input).1 ∧
      (s.runCommand input).2.Agrees (s'.runCommand input).2 :=
  execute_agrees h (submissionsAlike_refl _)

theorem runFunction_agrees (h : s.Agrees s') (id : String) (arguments : Option String) :
    (s.runFunction id arguments).1 = (s'.runFunction id arguments).1 ∧
      (s.runFunction id arguments).2.Agrees (s'.runFunction id arguments).2 := by
  obtain ⟨hbody, hlibrary⟩ := bodyFor_alike h.library id arguments
  unfold runFunction
  generalize bodyFor s.host.library id arguments = found at hbody hlibrary
  generalize bodyFor s'.host.library id arguments = found' at hbody hlibrary
  obtain ⟨body, library⟩ := found
  obtain ⟨body', library'⟩ := found'
  have hagrees : (s.withLibrary library).Agrees (s'.withLibrary library') :=
    ⟨h.counters, hlibrary, h.limits, h.shown, h.shown'⟩
  exact execute_agrees hagrees (calls_alike hbody)

/-- **A submission depends on nothing but counters, library and limits.** -/
theorem reports_agree (h : s.Agrees s') :
    (∀ input, (s.runCommand input).1 = (s'.runCommand input).1 ∧
      (s.runCommand input).2.Agrees (s'.runCommand input).2) ∧
    ∀ id arguments, (s.runFunction id arguments).1 = (s'.runFunction id arguments).1 ∧
      (s.runFunction id arguments).2.Agrees (s'.runFunction id arguments).2 :=
  ⟨runCommand_agrees h, runFunction_agrees h⟩

/-- A session with a function, room for two operations in a run, and no past. -/
def unspent : Session :=
  ({ limits := { commands := 2 } } : Session).withLibrary [("t:greet", .templated Templated.greet)]

/-- It later, traced and profiled, with a body of the function kept. -/
def watched : Session :=
  { ((unspent.setTracing true).setProfiling true).withLibrary
    (unspent.host.library.instantiate "t:greet" (some [("name", .text "Bo")])).2 with clock := 5 }

/-- A call of the function is aborted in both; in one of them a line is refused, too. -/
theorem watched_reports_agree :
    (watched.runFunction "t:greet" (some "{name:Ada}")).1.abort.isSome ∧
      ∃ s s', s = (unspent.runFunction "t:greet" (some "{name:Ada}")).2 ∧
        s' = ((watched.runFunction "t:greet" (some "{name:Ada}")).2.runCommand "mumble").2 ∧
        s.Agrees s' ∧
        (∀ input, (s.runCommand input).1 = (s'.runCommand input).1 ∧
          (s.runCommand input).2.Agrees (s'.runCommand input).2) ∧
        ∀ id arguments, (s.runFunction id arguments).1 = (s'.runFunction id arguments).1 ∧
          (s.runFunction id arguments).2.Agrees (s'.runFunction id arguments).2 := by
  obtain ⟨name, hload⟩ : ∃ name, Library.loadLines [] "t:greet" ["say hello", "$say $(name)"] =
      .ok (name, unspent.host.library) := ⟨_, rfl⟩
  have hcompiled : unspent.host.library.Compiled :=
    Library.compiled_loadLines (fun _ hentry => absurd hentry List.not_mem_nil) hload
  have hwatched : unspent.Agrees watched := {
    counters := rfl
    library := ⟨rfl, hcompiled, hcompiled.instantiate _ _⟩
    limits := rfl
    shown := rfl
    shown' := rfl }
  have hcalled := (runFunction_agrees hwatched "t:greet" (some "{name:Ada}")).2
  have habort : (watched.runFunction "t:greet" (some "{name:Ada}")).1.abort.isSome := by
    decide +kernel
  obtain ⟨e, hmumble⟩ : ∃ e, Command.parse console.permission "mumble" = .error e := ⟨_, rfl⟩
  rw [runCommand_refused _ hmumble]
  -- nothing of these runs is to be evaluated again
  generalize unspent.runFunction "t:greet" (some "{name:Ada}") = called at hcalled ⊢
  generalize watched.runFunction "t:greet" (some "{name:Ada}") = called' at hcalled habort ⊢
  have hagrees : called.2.Agrees { called'.2 with output := [] } :=
    ⟨hcalled.counters, hcalled.library, hcalled.limits, hcalled.shown, rfl⟩
  exact ⟨habort, _, _, rfl, rfl, hagrees, reports_agree hagrees⟩

end Session

end Trampoline
