import Trampoline.Proofs.Command.Sections
import Trampoline.Proofs.Session.Agreement

/-! What a profile gains.

A profiler that is told of a section and then of its end has as many sections open as
before, and counts one call more for the path of that section (`gains_pair`). A run
tells it of nothing but such pairs, so it counts what the run performed, each activity
under a path of its own, and leaves open what was open (`gains_execute`). This adds up
over all that is ever submitted to a session, whatever else happens to the session
(`profile_balanced`). -/
namespace Trampoline

open Command (standard)

/-- Activities of different names are different. -/
theorem Activity.name_inj {a b : Activity} (h : a.name = b.name) : a = b := by
  have hlist := congrArg String.toList h
  cases a with
  | prepare input =>
    cases b with
    | prepare input' =>
      simp only [name, String.toList_append, List.append_cancel_left_eq, String.toList_inj] at hlist
      rw [hlist]
    | execute input' =>
      simp only [name, String.toList_append] at hlist
      have hfirst : some 'p' = some 'e' := congrArg List.head? hlist
      exact absurd hfirst (by decide)
  | execute input =>
    cases b with
    | prepare input' =>
      simp only [name, String.toList_append] at hlist
      have hfirst : some 'e' = some 'p' := congrArg List.head? hlist
      exact absurd hfirst (by decide)
    | execute input' =>
      simp only [name, String.toList_append, List.append_cancel_left_eq, String.toList_inj] at hlist
      rw [hlist]

namespace Profile

variable {p p' p'' : Profile} {activities more : List Activity}

/-- The path of a section opened now. -/
def pathOf (p : Profile) (name : String) : String :=
  match p.stack with
  | (parent, _) :: _ => parent ++ ";" ++ name
  | [] => name

def calls (p : Profile) (path : String) : Nat := (p.sections.getD path {}).calls

/-- Sections of different names have different paths. -/
theorem pathOf_inj {name name' : String} (h : p.pathOf name = p.pathOf name') : name = name' := by
  unfold pathOf at h
  split at h
  · have hlist := congrArg String.toList h
    simpa only [String.toList_append, List.append_cancel_left_eq, String.toList_inj] using hlist
  · exact h

/-- The profile is left with the same sections open, and with as many more calls as activities. -/
structure Gains (p : Profile) (activities : List Activity) (p' : Profile) : Prop where
  stack : p'.stack = p.stack
  calls : ∀ path, p'.calls path =
    p.calls path + activities.countP fun activity => p.pathOf activity.name == path

theorem Gains.refl (p : Profile) : p.Gains [] p := ⟨rfl, fun _ => rfl⟩

theorem Gains.trans (h : p.Gains activities p') (h' : p'.Gains more p'') :
    p.Gains (activities ++ more) p'' := by
  refine ⟨h'.stack.trans h.stack, fun path => ?_⟩
  have hpath : p'.pathOf = p.pathOf := by
    funext name
    rw [pathOf, pathOf, h.stack]
  rw [h'.calls, h.calls, hpath, List.countP_append, Nat.add_assoc]

/-- Opened and closed, whatever the time. -/
theorem gains_pair (p : Profile) (activity : Activity) (started ended : Nat) :
    p.Gains [activity] ((p.openSection started activity.name).closeSection ended) := by
  refine ⟨rfl, fun path => ?_⟩
  have hpath : (p.openSection started activity.name).stack =
      (p.pathOf activity.name, started) :: p.stack := rfl
  simp only [closeSection, hpath, calls, Std.ExtTreeMap.getD_insert, Std.compare_eq_iff_eq,
    List.countP_cons, List.countP_nil, Nat.zero_add, beq_iff_eq]
  by_cases h : p.pathOf activity.name = path
  · rw [if_pos h, if_pos h, ← h]
    rfl
  · rw [if_neg h, if_neg h]
    rfl

/-- What a profiler makes of a happening. -/
def observe (p : Profile) (now : Nat) : Happening → Profile
  | .opened activity => p.openSection now activity.name
  | .closed => p.closeSection now
  | _ => p

/-- What a profiler makes of happenings, each at its time. -/
def follow (p : Profile) (timed : List (Nat × Happening)) : Profile :=
  timed.foldl (fun p x => p.observe x.1 x.2) p

theorem follow_filter (p : Profile) (timed : List (Nat × Happening)) :
    p.follow (timed.filter fun x => x.2.isSection) = p.follow timed := by
  induction timed generalizing p with
  | nil => rfl
  | cons x rest ih =>
    obtain ⟨now, happening⟩ := x
    cases happening with
    | opened activity => exact ih _
    | closed => exact ih _
    | heard listener outcome => exact ih _
    | traced event => exact ih _
    | note text => exact ih _

/-- Told of sections that are closed as soon as they are opened, it gains each of them. -/
theorem gains_follow (p : Profile) {timed : List (Nat × Happening)}
    (h : (timed.map Prod.snd).filter Happening.isSection = activities.flatMap Activity.pair) :
    p.Gains activities (p.follow timed) := by
  rw [← follow_filter]
  rw [List.filter_map] at h
  change (timed.filter fun x => x.2.isSection).map Prod.snd = _ at h
  generalize timed.filter (fun x => x.2.isSection) = told at h
  induction activities generalizing p told with
  | nil =>
    rw [List.map_eq_nil_iff.mp h]
    exact .refl p
  | cons activity rest ih =>
    obtain ⟨⟨started, _⟩, after, rfl, rfl, hafter⟩ := List.map_eq_cons_iff.mp h
    obtain ⟨⟨ended, _⟩, told, rfl, rfl, htold⟩ := List.map_eq_cons_iff.mp hafter
    exact (gains_pair p activity started ended).trans (ih _ _ htold)

end Profile

namespace Session

variable {s s' s'' : Session}

theorem profile_foldl_observe (happenings : List Happening) (s : Session) :
    (happenings.foldl observe s).profile = s.profile.follow (happenings.map (s.clock, ·)) := by
  induction happenings generalizing s with
  | nil => rfl
  | cons happening rest ih =>
    rw [List.foldl_cons, ih]
    cases happening <;> rfl

/-- What is done on a machine, with the fuel it is given. -/
def history (m : Command.Rig) : Command.RigHistory :=
  m.splice.history Command.taskMeaning
    (m.fuel (Task.weight Action.weight) (Command.allowance m.limits m.world.host.library))

/-- What a submission performs, if that is profiled. -/
def activities (s : Session) : Except CommandError (Action standard) → List Activity
  | .error _ => []
  | .ok action =>
    if s.observation.profiling then
      Command.activities
        (history (s.machine s.observation.enabled s.observation.profiling action))
    else []

/-- The sections of a run are what it performs. -/
theorem sections_run {action : Action standard} {ending : Ending} {m : Command.Rig}
    (h : Command.run (s.machine s.observation.enabled s.observation.profiling action) = (ending, m)) :
    m.world.journal.sections = (s.activities (.ok action)).flatMap Activity.pair := by
  have hspends := Command.spends_run
    ((s.machine s.observation.enabled s.observation.profiling action).fuel
      (Task.weight Action.weight) (Command.allowance s.limits s.host.library))
    (s.machine s.observation.enabled s.observation.profiling action)
  have hsections : (Command.run (s.machine s.observation.enabled s.observation.profiling
      action)).2.world.journal.sections = [] ++
        if s.observation.profiling then (Command.activities (history (s.machine
          s.observation.enabled s.observation.profiling action))).flatMap Activity.pair else [] :=
    hspends.sections
  rw [h, List.nil_append] at hsections
  rw [hsections, activities]
  split <;> rfl

/-- A submission gains what it performs. -/
theorem gains_execute (s : Session) (submission : Except CommandError (Action standard)) :
    s.profile.Gains (s.activities submission) (s.execute submission).2.profile := by
  cases submission with
  | error e => exact .refl _
  | ok action =>
    cases hrun : Command.run (s.machine s.observation.enabled s.observation.profiling action) with
    | mk ending m =>
      have hstarted : runAction { s with recorder := s.recorder.start s.clock } s.observation.enabled
          s.observation.profiling action = _ := runAction_eq hrun
      have hprofile : (s.execute (.ok action)).2.profile =
          s.profile.follow (m.world.journal.happenings.reverse.map (s.clock, ·)) := by
        unfold execute
        dsimp only
        rw [hstarted]
        exact profile_foldl_observe ..
      rw [hprofile]
      apply Profile.gains_follow
      rw [List.map_map]
      exact (congrArg _ (List.map_id _)).trans (sections_run hrun)

/-- What happens to a session, with the profiled activities of all its runs. Between submissions
everything but the profile may change. -/
inductive Worked : Session → List Activity → Session → Prop where
  | idle (s : Session) : Worked s [] s
  | submitted {s s' : Session} {activities : List Activity} (h : Worked s activities s')
      (submission : Except CommandError (Action standard)) :
      Worked s (activities ++ s'.activities submission) (s'.execute submission).2
  | meanwhile {s s' s'' : Session} {activities : List Activity} (h : Worked s activities s')
      (hprofile : s''.profile = s'.profile) : Worked s activities s''

/-- Commands and calls are submissions. -/
theorem Worked.command {activities : List Activity} (h : Worked s activities s') (input : String) :
    ∃ more, Worked s (activities ++ more) (s'.runCommand input).2 :=
  ⟨_, h.submitted _⟩

theorem Worked.call {activities : List Activity} (h : Worked s activities s') (id : String)
    (arguments : Option String) :
    ∃ more, Worked s (activities ++ more) (s'.runFunction id arguments).2 := by
  have hfound : Worked s activities (s'.withLibrary (bodyFor s'.host.library id arguments).2) :=
    h.meanwhile rfl
  exact ⟨_, hfound.submitted _⟩

theorem Worked.gains {activities : List Activity} (h : Worked s activities s') :
    s.profile.Gains activities s'.profile := by
  induction h with
  | idle => exact .refl _
  | submitted h submission ih => exact ih.trans (gains_execute _ submission)
  | meanwhile h hprofile ih => rwa [hprofile]

/-- **Sections are balanced.** However far a run gets and however it ends, its sections are pairs
that never nest, one for each walk and each execution it performs, in their order. Whatever the
times at which a profiler is told of such pairs, and whatever is submitted to a session, the same
sections are open afterwards as before, and the calls counted are one more for each of the pairs,
each activity under its own path. -/
theorem profile_balanced :
    (∀ (limits : Limits) (world : Scene Host) (callback : Callback) (action : Action standard)
      (fuel : Nat), world.journal.profiled = true →
        ((Command.submitted limits world callback action).run Command.taskMeaning
          fuel).2.world.journal.sections =
          world.journal.sections ++ (Command.activities ((Command.submitted limits world callback
            action).splice.history Command.taskMeaning fuel)).flatMap Activity.pair) ∧
    (∀ (p : Profile) (timed : List (Nat × Happening)) (activities : List Activity),
      (timed.map Prod.snd).filter Happening.isSection = activities.flatMap Activity.pair →
        p.Gains activities (p.follow timed)) ∧
    ∀ (s s' : Session) (activities : List Activity), Worked s activities s' →
      s'.profile.stack = s.profile.stack ∧
        (∀ activity : Activity, s'.profile.calls (s.profile.pathOf activity.name) =
          s.profile.calls (s.profile.pathOf activity.name) + activities.count activity) ∧
        ∀ path, (∀ activity ∈ activities, s.profile.pathOf activity.name ≠ path) →
          s'.profile.calls path = s.profile.calls path := by
  refine ⟨fun limits world callback action fuel hprofiled => ?_,
    fun p timed activities h => Profile.gains_follow p h, fun s s' activities h => ?_⟩
  · have hspends := Command.spends_run fuel (Command.submitted limits world callback action)
    have hsections := hspends.sections
    rw [show (Command.standingOf (Command.submitted limits world callback action)).scene.journal.profiled
      = true from hprofiled, if_pos rfl] at hsections
    exact hsections
  · obtain ⟨hstack, hcalls⟩ := h.gains
    refine ⟨hstack, fun activity => ?_, fun path hpath => ?_⟩
    · rw [hcalls]
      refine congrArg _ (List.countP_congr fun a _ => ?_)
      rw [beq_iff_eq, beq_iff_eq]
      exact ⟨fun heq => Activity.name_inj (Profile.pathOf_inj heq), fun heq => by rw [heq]⟩
    · rw [hcalls, List.countP_eq_zero.mpr fun a ha => by simpa using hpath a ha, Nat.add_zero]

/-- A session in an open section, with room for two operations in a run. -/
def overseen : Session :=
  { limits := { commands := 2 }
    observation := { profiling := true }
    profile := ({} : Profile).openSection 3 "shell" }

/-- The line whose command is out of budget for its second source. -/
def overspent : String := "execute as a,b run say hi"

/-- It is aborted; then a line is run that is not. -/
theorem profile_balanced_overseen :
    let first := overseen.runCommand overspent
    let last := ({ first.2 with clock := 9 } : Session).runCommand "say hi"
    first.1.abort.isSome ∧ last.1.abort = none ∧
      last.2.profile.stack = [("shell", 3)] ∧
      last.2.profile.calls ("shell;prepare " ++ overspent) = 1 ∧
      last.2.profile.calls ("shell;execute " ++ overspent) = 2 ∧
      last.2.profile.calls "shell;execute say hi" = 1 ∧
      last.2.profile.calls "shell" = 0 := by
  intro first last
  have hfirst : Worked overseen _ first.2 := (Worked.idle overseen).submitted _
  have hlater : Worked overseen _ { first.2 with clock := 9 } := hfirst.meanwhile rfl
  have hworked : Worked overseen _ last.2 := hlater.submitted _
  generalize hactivities : [] ++ overseen.activities _ ++ _ = activities at hworked
  have hlist : activities = [.prepare overspent, .execute overspent, .execute overspent,
      .prepare "say hi", .execute "say hi"] := by
    rw [← hactivities]
    decide +kernel
  obtain ⟨hstack, hcalls, hnone⟩ := profile_balanced.2.2 _ _ _ hworked
  rw [hlist] at hcalls hnone
  refine ⟨by decide +kernel, by decide +kernel, hstack, ?_, ?_, ?_, ?_⟩
  · exact hcalls (.prepare overspent)
  · exact hcalls (.execute overspent)
  · exact hcalls (.execute "say hi")
  · exact hnone "shell" (by decide +kernel)

end Session

end Trampoline
