import Trampoline.Proofs.Command.Growth

/-! The sections of a run.

Only two kinds of actions open a section, the walk of a chain and the execution of a
command. Each closes it again in the same turn, however that ends, and nothing it does
in between opens another one (`spends_upshot`). So what a profiler is told of a run
are pairs that never nest, one for each of these actions that was performed, in their
order; that a run is aborted makes no difference (`spends_run`). -/
namespace Trampoline

/-! ### Journals -/

def Happening.isSection : Happening → Bool
  | .opened _ => true
  | .closed => true
  | _ => false

/-- The section of an activity in which nothing else is opened. -/
def Activity.pair (activity : Activity) : List Happening := [.opened activity, .closed]

namespace Journal

/-- The sections opened and closed, in order. -/
def sections (j : Journal) : List Happening := j.happenings.reverse.filter Happening.isSection

/-- Between the two journals these activities were profiled one after the other, if anybody asked
for it. -/
structure Spends (j : Journal) (activities : List Activity) (j' : Journal) : Prop where
  sections : j'.sections = j.sections ++ if j.profiled then activities.flatMap Activity.pair else []
  profiled : j'.profiled = j.profiled

variable {j j' j'' : Journal} {activities more : List Activity}

theorem spends_nothing (hsections : j'.sections = j.sections) (hprofiled : j'.profiled = j.profiled) :
    j.Spends [] j' :=
  ⟨by simp [hsections], hprofiled⟩

theorem Spends.refl (j : Journal) : j.Spends [] j := spends_nothing rfl rfl

theorem Spends.trans (h : j.Spends activities j') (h' : j'.Spends more j'') :
    j.Spends (activities ++ more) j'' := by
  refine ⟨?_, h'.profiled.trans h.profiled⟩
  rw [h'.sections, h.sections, h.profiled, List.append_assoc]
  cases j.profiled <;> simp

theorem sections_add (j : Journal) (happening : Happening) :
    (j.add happening).sections = j.sections ++ [happening].filter Happening.isSection := by
  simp [sections, add, List.filter_append]

/-! What is no section takes no time. -/

theorem spends_add {happening : Happening} (h : happening.isSection = false) (j : Journal) :
    j.Spends [] (j.add happening) :=
  spends_nothing (by simp [sections_add, h]) rfl

theorem spends_display (j : Journal) (line : OutputLine) : j.Spends [] (j.display line) :=
  spends_nothing rfl rfl

theorem spends_trace (j : Journal) (event : Trace.Event) : j.Spends [] (j.trace event) := by
  unfold trace
  split
  · exact spends_add rfl j
  · exact .refl j

theorem spends_handleError (j : Journal) (source : Source) (e : CommandError) (forked : Bool) :
    j.Spends [] (j.handleError source e forked) := by
  have htrace : j.Spends [] (if j.traced then j.trace (.error e.describe) else j) := by
    split
    · exact spends_trace j _
    · exact .refl j
  unfold handleError
  dsimp only
  split
  · exact htrace
  · exact htrace.trans (spends_display ..)

theorem spends_hear (j : Journal) (callback : Callback) (outcome : Outcome) :
    j.Spends [] (j.hear callback outcome) := by
  unfold hear
  induction callback.listeners generalizing j with
  | nil => exact .refl j
  | cons listener rest ih =>
    have hadd : j.Spends [] (j.add (.heard listener outcome)) := spends_add rfl j
    exact hadd.trans (ih _)

theorem spends_spread (modify : Source → Except CommandError (List Source)) (limit : Nat)
    (flags : Flags) (starter : Source) (sources made : List Source) (count : Nat) (j : Journal) :
    j.Spends [] (spread modify limit flags starter sources made count j).2 := by
  induction sources generalizing made count j with
  | nil => exact .refl j
  | cons source rest ih =>
    rw [spread]
    split
    · split
      · exact spends_handleError ..
      · exact ih ..
    · dsimp only
      split
      · exact (spends_handleError ..).trans (ih ..)
      · exact spends_handleError ..

/-- A section in which no other one is opened. -/
theorem Spends.within {activity : Activity} (h : (j.openSection activity).Spends [] j') :
    j.Spends [activity] j'.closeSection := by
  obtain ⟨hsections, hprofiled⟩ := h
  rw [List.flatMap_nil, ite_self, List.append_nil] at hsections
  unfold openSection at hsections hprofiled
  unfold closeSection
  cases hj : j.profiled with
  | true =>
    rw [hj] at hsections hprofiled
    have hj' : j'.profiled = true := hprofiled.trans hj
    rw [if_pos hj']
    refine ⟨?_, hprofiled⟩
    rw [sections_add, hsections, if_pos rfl, sections_add, hj, List.append_assoc]
    rfl
  | false =>
    rw [hj] at hsections hprofiled
    have hj' : j'.profiled = false := hprofiled.trans hj
    rw [hj', if_neg Bool.false_ne_true]
    refine ⟨?_, hprofiled⟩
    rw [hsections, hj, if_neg Bool.false_ne_true, if_neg Bool.false_ne_true, List.append_nil]

end Journal

namespace Command

/-- What was profiled between two standings. -/
abbrev Standing.Spends (s : Standing) (activities : List Activity) (s' : Standing) : Prop :=
  s.scene.journal.Spends activities s'.scene.journal

variable {limits : Limits} {s : Standing}

/-! ### Actions -/

/-- What an action spends its turn on, if it is profiled at all. -/
def activity? : Action standard → Option Activity
  | .walk chain .. => some (.prepare chain.input)
  | .execute input .. => some (.execute input)
  | .call .. => none
  | .isolated .. => none
  | .fallthrough => none

/-- What a task spends its turn on. -/
def taskActivities : Task (Action standard) → List Activity
  | .act action => (activity? action).toList
  | .fan _ => []

theorem spends_itemOf (id : String) (arguments : Option Record) (source : Source) (flags : Flags)
    (item : Body standard → Action standard) (scene : Scene Host) :
    scene.journal.Spends [] (itemOf id arguments source flags item scene).2.journal := by
  have hjournal : (bodyOf id arguments scene).2.journal = scene.journal := rfl
  unfold itemOf
  generalize bodyOf id arguments scene = found at hjournal
  obtain ⟨result, scene'⟩ := found
  rw [← hjournal]
  cases result with
  | ok body => exact .refl _
  | error e => exact Journal.spends_handleError ..

theorem spends_carryOut (level : Level) (e : Executor) (flags : Flags) (source : Source)
    (scene : Scene Host) :
    scene.journal.Spends [] (carryOut level e flags source scene).2.journal := by
  cases e with
  | «return» value =>
    exact (Journal.spends_hear scene.journal source.callback _).trans (Journal.spends_hear ..)
  | function id arguments => exact spends_itemOf ..
  | trigger id => exact spends_itemOf ..

theorem spends_carryOutAll (level : Level) (e : Executor) (flags : Flags) (sources : List Source)
    (scene : Scene Host) :
    scene.journal.Spends [] (carryOutAll level e flags sources scene).2.journal := by
  induction sources generalizing scene with
  | nil => exact .refl _
  | cons source rest ih =>
    have hfirst := spends_carryOut level e flags source scene
    exact hfirst.trans (ih (carryOut level e flags source scene).2)

theorem spends_finish (level : Level) (chain : Chain standard) (sources : List Source)
    (flags : Flags) (s : Standing) :
    s.Spends [] (finish level chain sources flags s).standing := by
  unfold finish
  split
  · exact .refl _
  · split
    · exact spends_carryOutAll ..
    · exact .refl _
    · exact .refl _

theorem spends_pay {next : Standing → Upshot}
    (h : Standing.Spends { s with cost := s.cost + 1 } [] (next { s with cost := s.cost + 1 }).standing) :
    s.Spends [] (s.pay limits next).standing := by
  unfold Standing.pay
  split
  · exact h
  · exact .refl _

theorem spends_within {activity : Activity} {run : Standing → Upshot}
    (h : ∀ s : Standing, s.Spends [] (run s).standing) :
    s.Spends [activity] (s.within activity run).standing :=
  (h (s.write (·.openSection activity))).within

theorem spends_walkOn {level : Level} {starter : Source} {input : String}
    {before : List (Stage standard)} {stage : Stage standard} {after : List (Stage standard)}
    {flags : Flags}
    (h : ∀ sources (s : Standing),
      s.Spends [] (descend limits level starter input before stage after sources flags s).standing)
    (modifier : Modifier) (sources : List Source) (s : Standing) :
    s.Spends [] (walkOn limits level starter input before stage after flags
      (spreadOut limits modifier starter sources flags s.scene) s).standing := by
  have hmade : s.Spends []
      { s with scene := (spreadOut limits modifier starter sources flags s.scene).2 } :=
    Journal.spends_spread ..
  refine hmade.trans ?_
  unfold walkOn
  split
  · exact .refl _
  · exact spends_finish ..
  · exact h ..

theorem spends_descend (limits : Limits) (level : Level) (starter : Source) (input : String)
    (before : List (Stage standard)) (top : Stage standard) (after : List (Stage standard))
    (sources : List Source) (flags : Flags) (s : Standing) :
    s.Spends [] (descend limits level starter input before top after sources flags s).standing := by
  induction after generalizing before top sources flags s with
  | nil => exact spends_finish ..
  | cons stage after ih =>
    cases htop : top.redirect with
    | none =>
      rw [descend, htop]
      exact .refl _
    | some redirect =>
      cases redirect with
      | custom r =>
        cases r
        rw [descend, htop]
        dsimp only
        rw [standing_takeOver]
        exact .refl _
      | modifier modifier =>
        rw [descend_modifier limits level starter input before stage after sources s htop rfl]
        exact spends_pay (spends_walkOn (fun sources s => ih _ _ sources _ s) modifier sources _)

theorem spends_perform (verb : Verb) (source : Source) (scene : Scene Host) :
    scene.journal.Spends [] (perform verb source scene).2.journal := by
  cases verb with
  | say text => exact Journal.spends_display ..
  | getCounter name => exact .refl _
  | addCounter name delta => exact .refl _
  | setCounter name value => exact .refl _
  | fail text => exact .refl _
  | test condition => exact .refl _

theorem spends_settle (depth : Nat) (input : String) (verb : Verb) (flags : Flags) (source : Source)
    (scene : Scene Host) :
    scene.journal.Spends [] (dialect.settle depth input verb flags source scene).journal := by
  have htrace := Journal.spends_trace scene.journal (.command depth input)
  have hperform : (scene.write (·.trace (.command depth input))).journal.Spends []
      (dialect.perform verb source (scene.write (·.trace (.command depth input)))).2.journal :=
    spends_perform ..
  have hdone := htrace.trans hperform
  unfold Dialect.settle
  dsimp only
  split
  · next hp =>
    rw [hp] at hdone
    exact hdone.trans ((Journal.spends_hear ..).trans (Journal.spends_trace ..))
  · next hp =>
    rw [hp] at hdone
    exact hdone.trans ((Journal.spends_hear ..).trans (Journal.spends_handleError ..))

/-- An action has one section or none, also when it is refused its cost. -/
theorem spends_upshot (limits : Limits) (level : Level) (action : Action standard) (s : Standing) :
    s.Spends (activity? action).toList (upshot limits level action s).standing := by
  cases action with
  | walk chain starter sources flags => exact spends_within fun s => spends_descend ..
  | execute input verb flags source =>
    refine spends_within fun s => spends_pay ?_
    exact spends_settle ..
  | call body returns shared source => exact spends_pay (Journal.spends_trace ..)
  | isolated body source => exact .refl _
  | fallthrough => exact Journal.spends_hear ..

/-! ### Runs -/

theorem spends_exec (task : Task (Action standard)) (frame : Frame) (m : Rig) :
    (standingOf m).Spends (taskActivities task)
      (standingOf ((taskMeaning task frame).exec m).2) := by
  cases task with
  | act action =>
    have hx : (taskMeaning (.act action) frame).exec m = _ := (meaning_yields action frame m).exec
    rw [hx, standing_settle]
    exact spends_upshot ..
  | fan items =>
    have hx : (taskMeaning (.fan items) frame).exec m = _ := Task.exec_unfold frame items m
    rw [hx, Machine.pushAll_eq]
    exact .refl _

theorem spends_turn {m m' : Rig} {e : Entry (Task (Action standard))}
    {rest : List (Entry (Task (Action standard)))} {result : Option Fault}
    (hp : Machine.perform taskMeaning (m.begin e rest) e = (result, m')) :
    (standingOf m).Spends (taskActivities e.action) (standingOf m') := by
  have h : (standingOf m).Spends _ _ := spends_exec e.action e.frame (m.begin e rest)
  have habort (m₁ : Rig) : (standingOf m₁).Spends [] (standingOf (m₁.abort e.frame)) :=
    Journal.spends_hear ..
  rw [show m' = (Machine.perform taskMeaning (m.begin e rest) e).2 by rw [hp]]
  match hx : (taskMeaning e.action e.frame).exec (m.begin e rest) with
  | (.error _, m₁) =>
    rw [hx] at h
    rw [Machine.perform_of_error hx]
    simpa using h.trans (habort m₁)
  | (.ok (), m₁) =>
    rw [hx] at h
    rw [Machine.perform_of_ok hx]
    split
    · simpa using h.trans (habort m₁)
    · exact h

/-- What the entries of a history spent their turns on, in order. -/
def activities (h : RigHistory) : List Activity :=
  h.performed.flatMap fun e => taskActivities e.action

/-- A run spends its time on what it performs, as far as it goes. -/
theorem spends_drain (fuel : Nat) (m : Rig) :
    (standingOf m).Spends (activities (m.history taskMeaning fuel))
      (standingOf (m.drain taskMeaning fuel).2) := by
  induction fuel generalizing m with
  | zero =>
    cases hq : m.queue.toList with
    | nil =>
      rw [Machine.drain_of_nil hq]
      exact .refl _
    | cons e rest =>
      rw [Machine.drain_zero hq]
      exact .refl _
  | succ fuel ih =>
    cases hq : m.queue.toList with
    | nil =>
      rw [Machine.history_of_nil hq, Machine.drain_of_nil hq]
      exact .refl _
    | cons e rest =>
      cases hl : m.isLive e with
      | false =>
        rw [Machine.history_of_dead hq hl, Machine.drain_of_dead hq hl]
        exact ih (m.without rest)
      | true =>
        rw [Machine.history_of_live hq hl, Machine.drain_of_live hq hl, activities,
          Machine.performed_turn_append, List.flatMap_cons]
        match hp : Machine.perform taskMeaning (m.begin e rest) e with
        | (some fault, m₁) => exact (spends_turn hp).trans (.refl _)
        | (none, m₁) => exact (spends_turn hp).trans (ih m₁)

theorem spends_run (fuel : Nat) (m : Rig) :
    (standingOf m).Spends (activities (m.splice.history taskMeaning fuel))
      (standingOf (m.run taskMeaning fuel).2) :=
  spends_drain fuel m.splice

end Command

end Trampoline
