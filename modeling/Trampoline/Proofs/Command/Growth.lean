import Trampoline.Proofs.Command.Turn
import Trampoline.Proofs.Journal

/-! Actions only add.

What an action leaves is never less than what it found: the cost does not fall, and
the journal it found is a beginning of the one it leaves (`before_upshot`). A walk
charges one unit for each stage; whatever is done at the end of the walk is free.
So nothing that a run has shown, heard, traced or charged is ever taken back
(`before_course`). -/
namespace Trampoline.Command

structure Standing.Before (s s' : Standing) : Prop where
  cost : s.cost ≤ s'.cost
  journal : s.scene.journal.Before s'.scene.journal

variable {limits : Limits} {level : Level} {s s' s'' : Standing}

theorem Standing.Before.refl (s : Standing) : s.Before s := ⟨Nat.le_refl _, .refl _⟩

theorem Standing.Before.trans (h : s.Before s') (h' : s'.Before s'') : s.Before s'' :=
  ⟨Nat.le_trans h.cost h'.cost, h.journal.trans h'.journal⟩

/-- The journal does not tell whether a unit was charged. -/
theorem Standing.Before.of_paid (h : Standing.Before { s with cost := s.cost + 1 } s') :
    s.Before s' :=
  ⟨Nat.le_of_succ_le h.cost, h.journal⟩

theorem before_pay {next : Standing → Upshot}
    (h : Standing.Before { s with cost := s.cost + 1 } (next { s with cost := s.cost + 1 }).standing) :
    s.Before (s.pay limits next).standing := by
  unfold Standing.pay
  split
  · exact h.of_paid
  · exact .refl s

theorem before_within {activity : Activity} {run : Standing → Upshot}
    (h : ∀ s, Standing.Before s (run s).standing) : s.Before (s.within activity run).standing := by
  have hrun := h (s.write (·.openSection activity))
  have hopen := Journal.before_openSection s.scene.journal activity
  exact ⟨hrun.cost, (hopen.trans hrun.journal).trans (Journal.before_closeSection _)⟩

/-! ### The last stage -/

theorem before_itemOf (id : String) (arguments : Option Record) (source : Source) (flags : Flags)
    (item : Body standard → Action standard) (scene : Scene Host) :
    scene.journal.Before (itemOf id arguments source flags item scene).2.journal := by
  have hjournal : (bodyOf id arguments scene).2.journal = scene.journal := rfl
  unfold itemOf
  match hb : bodyOf id arguments scene with
  | (.ok body, made) =>
    rw [hb] at hjournal
    rw [← hjournal]
    exact .refl _
  | (.error e, made) =>
    rw [hb] at hjournal
    rw [← hjournal]
    exact Journal.before_handleError ..

theorem before_carryOut (level : Level) (e : Executor) (flags : Flags) (source : Source)
    (scene : Scene Host) :
    scene.journal.Before (carryOut level e flags source scene).2.journal := by
  cases e with
  | «return» value =>
    exact (Journal.before_hear scene.journal source.callback _).trans (Journal.before_hear ..)
  | function id arguments => exact before_itemOf ..
  | trigger id => exact before_itemOf ..

theorem before_carryOutAll (level : Level) (e : Executor) (flags : Flags) (sources : List Source)
    (scene : Scene Host) :
    scene.journal.Before (carryOutAll level e flags sources scene).2.journal := by
  induction sources generalizing scene with
  | nil => exact .refl _
  | cons source rest ih =>
    have hfirst := before_carryOut level e flags source scene
    exact hfirst.trans (ih (carryOut level e flags source scene).2)

theorem cost_finish (level : Level) (chain : Chain standard) (sources : List Source) (flags : Flags)
    (s : Standing) : (finish level chain sources flags s).standing.cost = s.cost := by
  unfold finish
  split
  · rfl
  · split
    · rfl
    · rfl
    · rfl

theorem before_finish (level : Level) (chain : Chain standard) (sources : List Source)
    (flags : Flags) (s : Standing) : s.Before (finish level chain sources flags s).standing := by
  refine ⟨Nat.le_of_eq (cost_finish ..).symm, ?_⟩
  unfold finish
  split
  · exact .refl _
  · split
    · exact before_carryOutAll ..
    · exact .refl _
    · exact .refl _

/-! ### The walk -/

theorem standing_takeOver (starter : Source) (sources : List Source) (chain : Chain standard)
    (flags : Flags) (s : Standing) : (takeOver starter sources chain flags s).standing = s := by
  unfold takeOver
  split
  · rfl
  · rfl

/-- How the walk goes on with what a modifier stage made of its sources. -/
def walkOn (limits : Limits) (level : Level) (starter : Source) (input : String)
    (before : List (Stage standard)) (stage : Stage standard) (after : List (Stage standard))
    (flags : Flags) (made : Spread × Scene Host) (s : Standing) : Upshot :=
  match made.1 with
  | .stopped => { standing := { s with scene := made.2 } }
  | .onward [] => finish level ⟨input, before, stage, after⟩ [] flags { s with scene := made.2 }
  | .onward sources =>
    descend limits level starter input before stage after sources flags { s with scene := made.2 }

theorem descend_modifier {top : Stage standard} {modifier : Modifier} {flags flags' : Flags}
    (limits : Limits) (level : Level) (starter : Source) (input : String)
    (before : List (Stage standard)) (stage : Stage standard) (after : List (Stage standard))
    (sources : List Source) (s : Standing)
    (htop : top.redirect = some (.modifier modifier))
    (hflags : flags' = if top.forks then { flags with forked := true } else flags) :
    descend limits level starter input before top (stage :: after) sources flags s =
      s.pay limits fun s =>
        walkOn limits level starter input (top :: before) stage after flags'
          (spreadOut limits modifier starter sources flags' s.scene) s := by
  rw [descend, htop, hflags]
  rfl

theorem before_walkOn {starter : Source} {input : String} {before : List (Stage standard)}
    {stage : Stage standard} {after : List (Stage standard)} {flags : Flags}
    (h : ∀ sources (s : Standing),
      s.Before (descend limits level starter input before stage after sources flags s).standing)
    (modifier : Modifier) (sources : List Source) (s : Standing) :
    s.Before (walkOn limits level starter input before stage after flags
      (spreadOut limits modifier starter sources flags s.scene) s).standing := by
  have hmade : s.Before { s with scene := (spreadOut limits modifier starter sources flags s.scene).2 } :=
    ⟨Nat.le_refl _, Journal.before_spread ..⟩
  refine hmade.trans ?_
  unfold walkOn
  split
  · exact .refl _
  · exact before_finish ..
  · exact h ..

theorem before_descend (limits : Limits) (level : Level) (starter : Source) (input : String)
    (before : List (Stage standard)) (top : Stage standard) (after : List (Stage standard))
    (sources : List Source) (flags : Flags) (s : Standing) :
    s.Before (descend limits level starter input before top after sources flags s).standing := by
  induction after generalizing before top sources flags s with
  | nil => exact before_finish ..
  | cons stage after ih =>
    cases htop : top.redirect with
    | none =>
      rw [descend, htop]
      exact .refl s
    | some redirect =>
      cases redirect with
      | custom r =>
        cases r
        rw [descend, htop]
        dsimp only
        rw [standing_takeOver]
        exact .refl s
      | modifier modifier =>
        rw [descend_modifier limits level starter input before stage after sources s htop rfl]
        exact before_pay (before_walkOn (fun sources s => ih _ _ sources _ s) modifier sources _)

/-! ### The other actions -/

theorem before_perform (verb : Verb) (source : Source) (scene : Scene Host) :
    scene.journal.Before (perform verb source scene).2.journal := by
  cases verb with
  | say text => exact Journal.before_display ..
  | getCounter name => exact .refl _
  | addCounter name delta => exact .refl _
  | setCounter name value => exact .refl _
  | fail text => exact .refl _
  | test condition => exact .refl _

theorem before_settle (depth : Nat) (input : String) (verb : Verb) (flags : Flags) (source : Source)
    (scene : Scene Host) :
    scene.journal.Before (dialect.settle depth input verb flags source scene).journal := by
  have htrace := Journal.before_trace scene.journal (.command depth input)
  have hperform : (scene.write (·.trace (.command depth input))).journal.Before
      (dialect.perform verb source (scene.write (·.trace (.command depth input)))).2.journal :=
    before_perform ..
  have hdone := htrace.trans hperform
  unfold Dialect.settle
  dsimp only
  split
  · rename_i result made hp
    rw [hp] at hdone
    exact hdone.trans ((Journal.before_hear ..).trans (Journal.before_trace ..))
  · rename_i e made hp
    rw [hp] at hdone
    exact hdone.trans ((Journal.before_hear ..).trans (Journal.before_handleError ..))

theorem before_upshot (limits : Limits) (level : Level) (action : Action standard) (s : Standing) :
    s.Before (upshot limits level action s).standing := by
  cases action with
  | walk chain starter sources flags => exact before_within fun s => before_descend ..
  | execute input verb flags source =>
    exact before_within fun s => before_pay ⟨Nat.le_refl _, before_settle ..⟩
  | call body returns shared source =>
    exact before_pay ⟨Nat.le_refl _, Journal.before_trace ..⟩
  | isolated body source => exact .refl s
  | fallthrough => exact ⟨Nat.le_refl _, Journal.before_hear ..⟩

/-! ### Runs -/

/-- Whatever a task does, it only adds. -/
theorem before_exec (task : Task (Action standard)) (frame : Frame) (m : Rig) :
    (standingOf m).Before (standingOf ((taskMeaning task frame).exec m).2) := by
  cases task with
  | act a =>
    have hx : (taskMeaning (.act a) frame).exec m = _ := (meaning_yields a frame m).exec
    rw [hx, standing_settle]
    exact before_upshot ..
  | fan items =>
    have hx : (taskMeaning (.fan items) frame).exec m = _ := Task.exec_unfold frame items m
    rw [hx, Machine.pushAll_eq]
    exact .refl _

theorem before_turn {m m' : Rig} {e : Entry (Task (Action standard))}
    {rest : List (Entry (Task (Action standard)))} {result : Option Fault}
    (hp : Machine.perform taskMeaning (m.begin e rest) e = (result, m')) :
    (standingOf m).Before (standingOf m') := by
  have h : (standingOf m).Before _ := before_exec e.action e.frame (m.begin e rest)
  have habort : ∀ m₁ : Rig, (standingOf m₁).Before (standingOf (m₁.abort e.frame)) :=
    fun m₁ => ⟨Nat.le_refl _, Journal.before_hear ..⟩
  rw [show m' = (Machine.perform taskMeaning (m.begin e rest) e).2 by rw [hp]]
  match hx : (taskMeaning e.action e.frame).exec (m.begin e rest) with
  | (.error _, m₁) =>
    rw [hx] at h
    rw [Machine.perform_of_error hx]
    exact h.trans (habort m₁)
  | (.ok (), m₁) =>
    rw [hx] at h
    rw [Machine.perform_of_ok hx]
    split
    · exact h.trans (habort m₁)
    · exact h

/-- So does a run, also one that is aborted. -/
theorem before_course {m m' : Rig} {h : RigHistory} {ending : Ending}
    (c : Machine.Course taskMeaning m h ending m') :
    (standingOf m).Before (standingOf m') := by
  induction c with
  | finished hq => exact .refl _
  | dropped hq hl next ih => exact ih
  | performed hq hl hp next ih => exact (before_turn hp).trans ih
  | failed hq hl hp => exact before_turn hp

end Trampoline.Command
