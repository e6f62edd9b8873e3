import Trampoline.Proofs.Command.Bounds
import Trampoline.Proofs.Command.Turn

/-! Every run ends, and stays in its budget.

What an action can lead to without being charged for is its weight, and one unit of
the budget is worth an allowance: the sources a stage can make, or the lines a body
can have. The weight of everything that waits, together with the allowance of what is
left of the budget, goes down at every turn (`sound_perform`). So a run takes no more
entries off the queue than this comes to at its start (`turns_le_potential`), whatever
the library and however its functions call each other (`run_ends`), and the fuel that
a run is given is enough (`run_compiled_ends`). -/
namespace Trampoline.Command

/-! ### Weights -/

/-- The weight of tasks. -/
def load : List (Task (Action standard)) → Nat
  | [] => 0
  | task :: rest => Task.weight Action.weight task + load rest

theorem load_append (as bs : List (Task (Action standard))) : load (as ++ bs) = load as + load bs := by
  induction as with
  | nil => simp [load]
  | cons task rest ih => simp [load, ih, Nat.add_assoc]

theorem weight_fan_cons (a : Action standard) (items : List (Action standard)) :
    Task.weight Action.weight (.fan (a :: items)) =
      1 + a.weight + Task.weight Action.weight (.fan items) := rfl

theorem weight_pos (a : Action standard) : 1 ≤ a.weight := by
  cases a <;> simp only [Action.weight] <;> omega

/-- All items queued at once weigh less than when they are fanned out. -/
theorem load_map_act_le (items : List (Action standard)) :
    load (items.map .act) ≤ Task.weight Action.weight (.fan items) := by
  induction items with
  | nil => exact Nat.le_refl _
  | cons a items ih =>
    rw [weight_fan_cons]
    simp only [load, List.map_cons, Task.weight] at ih ⊢
    omega

theorem load_batch_le (items : List (Action standard)) :
    load (Task.batch items) ≤ Task.weight Action.weight (.fan items) := by
  match items with
  | [] => exact Nat.le_refl _
  | [a] => exact load_map_act_le [a]
  | [a, b] => exact load_map_act_le [a, b]
  | a :: b :: c :: rest =>
    rw [weight_fan_cons]
    simp only [load, Task.batch, Task.weight]
    omega

/-- Unfolding a fan-out costs the weight of the entry that does it. -/
theorem load_unfolded_lt {items : List (Action standard)} (h : items ≠ []) :
    load (Task.unfolded items) < Task.weight Action.weight (.fan items) := by
  match items with
  | [] => exact absurd rfl h
  | [a] =>
    rw [weight_fan_cons]
    simp only [load, Task.unfolded, Task.weight]
    omega
  | a :: b :: rest =>
    rw [weight_fan_cons]
    simp only [load, Task.unfolded, Task.weight]
    omega

/-! ### What an action can lead to -/

/-- What can be queued of bodies within the bounds. -/
def ActionWithin (b : Bounds) : Action standard → Prop
  | .walk .. => True
  | .execute .. => True
  | .call body .. => body.Within b
  | .isolated body _ => body.Within b
  | .fallthrough => True

/-- What one unit of the budget can add. -/
def allowanceOf (b : Bounds) (limits : Limits) : Nat :=
  2 * limits.forks + (5 + b.stages) * b.lines

/-- What is left of the budget, in units of weight. -/
def reserve (b : Bounds) (limits : Limits) (cost : Nat) : Nat :=
  (limits.commands - cost) * allowanceOf b limits

/-- One unit paid frees the allowance. -/
theorem reserve_succ (b : Bounds) {limits : Limits} {cost : Nat} (h : cost < limits.commands) :
    reserve b limits (cost + 1) + allowanceOf b limits = reserve b limits cost := by
  unfold reserve
  rw [← Nat.succ_mul]
  congr 1
  omega

/-- What an upshot leads to is paid for by `weight` and by what it takes from the budget. -/
structure Pays (b : Bounds) (limits : Limits) (weight : Nat) (s : Standing) (u : Upshot) : Prop where
  load : load u.tasks + reserve b limits u.standing.cost ≤ weight + reserve b limits s.cost
  items : ∀ a ∈ u.items, ActionWithin b a
  library : u.standing.scene.host.library.Within b

variable {b : Bounds} {limits : Limits} {level : Level} {s : Standing} {scene : Scene Host}

/-- Where nothing is paid, the weight alone has to do. -/
theorem Pays.of_load {weight : Nat} {u : Upshot} (hload : Command.load u.tasks ≤ weight)
    (hcost : u.standing.cost = s.cost) (hitems : ∀ a ∈ u.items, ActionWithin b a)
    (hl : u.standing.scene.host.library.Within b) : Pays b limits weight s u :=
  ⟨hcost ▸ Nat.add_le_add_right hload _, hitems, hl⟩

theorem Pays.mono {weight weight' : Nat} {s' : Standing} {u : Upshot}
    (h : Pays b limits weight s u) (hw : weight ≤ weight') (hcost : s.cost = s'.cost) :
    Pays b limits weight' s' u :=
  ⟨Nat.le_trans h.load (hcost ▸ Nat.add_le_add_right hw _), h.items, h.library⟩

theorem pays_nothing (weight : Nat) (hl : s.scene.host.library.Within b) :
    Pays b limits weight s { standing := s } :=
  .of_load (Nat.zero_le _) rfl (fun _ ha => absurd ha List.not_mem_nil) hl

theorem pays_fault (weight : Nat) (fault : Fault) (hl : s.scene.host.library.Within b) :
    Pays b limits weight s { fault := some fault, standing := s } :=
  .of_load (Nat.zero_le _) rfl (fun _ ha => absurd ha List.not_mem_nil) hl

/-- Paying one unit makes room for what it allows. -/
theorem pays_pay {weight : Nat} (next : Standing → Upshot) (hl : s.scene.host.library.Within b)
    (h : Pays b limits (weight + allowanceOf b limits) ⟨s.scene, s.cost + 1⟩
      (next ⟨s.scene, s.cost + 1⟩)) :
    Pays b limits weight s (s.pay limits next) := by
  unfold Standing.pay
  by_cases hroom : s.cost < limits.commands
  · rw [if_pos hroom]
    have hload := h.load
    have hreserve := reserve_succ b hroom
    simp only at hload
    exact ⟨by omega, h.items, h.library⟩
  · rw [if_neg hroom]
    exact pays_fault weight _ hl

/-- The profiler's sections weigh nothing. -/
theorem pays_within {weight : Nat} (activity : Activity) (run : Standing → Upshot)
    (h : Pays b limits weight (s.write (·.openSection activity))
      (run (s.write (·.openSection activity)))) :
    Pays b limits weight s (s.within activity run) :=
  ⟨h.load, h.items, h.library⟩

/-! ### The last stage -/

/-- A chain that ran out of sources returns a failure, or nothing is left of it. -/
theorem pays_runOut {weight : Nat} (hw : 1 ≤ weight) (flags : Flags)
    (hl : s.scene.host.library.Within b) :
    Pays b limits weight s
      { standing := s, items := if flags.returning then [.fallthrough] else [] } := by
  by_cases h : flags.returning
  · rw [if_pos h]
    refine .of_load ?_ rfl (fun a ha => ?_) hl
    · exact hw
    · rw [List.mem_singleton.mp ha]
      trivial
  · rw [if_neg h]
    exact pays_nothing weight hl

/-- A body is looked up for at most one item. -/
theorem itemOf_within {id : String} {arguments : Option Record} {source : Source} {flags : Flags}
    {item : Body standard → Action standard} (hb : maxLineLength ≤ b.stages)
    (hl : scene.host.library.Within b)
    (hi : ∀ body, body.Within b → ActionWithin b (item body) ∧ (item body).weight ≤ 2) :
    load ((itemOf id arguments source flags item scene).1.map .act) ≤ 2 ∧
      (∀ a ∈ (itemOf id arguments source flags item scene).1, ActionWithin b a) ∧
        (itemOf id arguments source flags item scene).2.host.library.Within b := by
  obtain ⟨hbody, hlibrary⟩ := Library.within_instantiate hl hb id arguments
  unfold itemOf bodyOf
  cases hr : scene.host.library.instantiate id arguments with
  | mk result library =>
    rw [hr] at hbody hlibrary
    cases result with
    | ok body =>
      obtain ⟨hwithin, hweight⟩ := hi body (hbody body rfl)
      exact ⟨hweight, fun a ha => List.mem_singleton.mp ha ▸ hwithin, hlibrary⟩
    | error e => exact ⟨Nat.zero_le _, fun a ha => absurd ha List.not_mem_nil, hlibrary⟩

/-- For one source an executor queues at most one item, which weighs two at most. -/
theorem carryOut_within (level : Level) (hb : maxLineLength ≤ b.stages) (e : Executor)
    (flags : Flags) (source : Source) (hl : scene.host.library.Within b) :
    load ((carryOut level e flags source scene).1.map .act) ≤ 2 ∧
      (∀ a ∈ (carryOut level e flags source scene).1, ActionWithin b a) ∧
        (carryOut level e flags source scene).2.host.library.Within b := by
  cases e with
  | «return» value => exact ⟨Nat.zero_le _, fun _ ha => absurd ha List.not_mem_nil, hl⟩
  | function id arguments =>
    refine itemOf_within hb hl fun body hbody => ?_
    cases flags.returning with
    | true => exact ⟨hbody, Nat.le_succ 1⟩
    | false => exact ⟨hbody, Nat.le_succ 1⟩
  | trigger id => exact itemOf_within hb hl fun body hbody => ⟨hbody, Nat.le_refl 2⟩

theorem carryOutAll_within (level : Level) (hb : maxLineLength ≤ b.stages) (e : Executor)
    (flags : Flags) (sources : List Source) (hl : scene.host.library.Within b) :
    load ((carryOutAll level e flags sources scene).1.map .act) ≤ 2 * sources.length ∧
      (∀ a ∈ (carryOutAll level e flags sources scene).1, ActionWithin b a) ∧
        (carryOutAll level e flags sources scene).2.host.library.Within b := by
  induction sources generalizing scene with
  | nil => exact ⟨Nat.le_refl _, fun _ ha => absurd ha List.not_mem_nil, hl⟩
  | cons source rest ih =>
    obtain ⟨hload, hitems, hl₁⟩ := carryOut_within level hb e flags source hl
    obtain ⟨hloads, hmore, hl₂⟩ := ih hl₁
    refine ⟨?_, ?_, hl₂⟩
    · simp only [carryOutAll, List.map_append, load_append, List.length_cons]
      omega
    · intro a ha
      rcases List.mem_append.mp ha with ha | ha
      · exact hitems a ha
      · exact hmore a ha

theorem length_finalists_le (returns : Callback) (flags : Flags) (sources : List Source) :
    (finalists returns flags sources).length ≤ sources.length := by
  unfold finalists
  by_cases h : flags.returning
  · rw [if_pos h, List.length_map]
    exact List.length_take_le' ..
  · simp [h]

theorem weight_fan_executes (input : String) (c : Verb) (flags : Flags) (sources : List Source) :
    Task.weight Action.weight (.fan (sources.map (.execute (V := standard) input c flags))) =
      2 * sources.length := by
  induction sources with
  | nil => rfl
  | cons source rest ih =>
    rw [List.map_cons, weight_fan_cons, ih, List.length_cons]
    change 1 + 1 + 2 * rest.length = 2 * (rest.length + 1)
    omega

theorem pays_finish (limits : Limits) (level : Level) (hb : maxLineLength ≤ b.stages)
    (chain : Chain standard) (sources : List Source) (flags : Flags)
    (hl : s.scene.host.library.Within b) :
    Pays b limits (1 + 2 * sources.length) s (finish level chain sources flags s) := by
  unfold finish
  by_cases hempty : sources.isEmpty
  · rw [if_pos hempty]
    exact pays_runOut (Nat.le_add_right ..) flags hl
  · rw [if_neg hempty]
    cases chain.top.executable with
    | none => exact pays_fault _ _ hl
    | some executable =>
      cases executable with
      | command c =>
        refine .of_load ?_ rfl (fun a ha => ?_) hl
        · have hle := length_finalists_le level.returns flags sources
          have hweight :=
            weight_fan_executes chain.input c flags (finalists level.returns flags sources)
          exact Nat.le_trans (load_batch_le _) (Nat.le_trans (Nat.le_of_eq hweight) (by omega))
        · obtain ⟨source, -, rfl⟩ := List.mem_map.mp ha
          trivial
      | custom e =>
        obtain ⟨hload, hitems, hl'⟩ := carryOutAll_within level hb e flags sources hl
        exact .of_load (Nat.le_trans hload (Nat.le_add_left ..)) rfl hitems hl'

/-! ### The walk -/

/-- A stage makes no more sources than the fork limit. -/
theorem length_spread {modify : Source → Except CommandError (List Source)} {limit : Nat}
    {flags : Flags} {starter : Source} {sources made result : List Source} {count : Nat}
    {j j' : Journal} (hcount : made.length = count) (hle : count ≤ limit)
    (h : spread modify limit flags starter sources made count j = (.onward result, j')) :
    result.length ≤ limit := by
  induction sources generalizing made count j with
  | nil =>
    rw [spread] at h
    cases h
    rw [List.length_reverse, hcount]
    exact hle
  | cons source rest ih =>
    rw [spread] at h
    split at h
    · next produced hproduced =>
      split at h
      · cases h
      · refine ih ?_ (by omega) h
        rw [List.reverseAux_eq, List.length_append, List.length_reverse, hcount, Nat.add_comm]
    · split at h
      · exact ih hcount hle h
      · cases h

theorem length_spreadOut {modifier : Modifier} {starter : Source} {sources result : List Source}
    {flags : Flags} (h : (spreadOut limits modifier starter sources flags scene).1 = .onward result) :
    result.length ≤ limits.forks := by
  unfold spreadOut at h
  exact length_spread rfl (Nat.zero_le _) (Prod.ext h rfl)

theorem pays_takeOver (starter : Source) (sources : List Source) (chain : Chain standard)
    (flags : Flags) (hafter : chain.after ≠ []) (hl : s.scene.host.library.Within b) :
    Pays b limits (1 + chain.after.length + 2 * sources.length) s
      (takeOver starter sources chain flags s) := by
  unfold takeOver
  by_cases hempty : sources.isEmpty
  · rw [if_pos hempty]
    exact pays_runOut (by omega) flags hl
  · rw [if_neg hempty]
    refine .of_load ?_ rfl (fun a ha => ?_) hl
    · cases hchain : chain.after with
      | nil => exact absurd hchain hafter
      | cons stage rest =>
        change 2 + chain.next.after.length + 2 * sources.length + 0 ≤ _
        rw [Chain.next, hchain]
        simp only [List.length_cons]
        omega
    · rw [List.mem_singleton.mp ha]
      trivial

/-- A walk leads to at most one entry for each stage and two for each source, unless it pays. -/
theorem pays_descend (limits : Limits) (level : Level) (hb : maxLineLength ≤ b.stages)
    (starter : Source) (input : String) (before : List (Stage standard)) (top : Stage standard)
    (after : List (Stage standard)) (sources : List Source) (flags : Flags)
    (hl : s.scene.host.library.Within b) :
    Pays b limits (1 + after.length + 2 * sources.length) s
      (descend limits level starter input before top after sources flags s) := by
  induction after generalizing before top sources flags s with
  | nil => exact pays_finish limits level hb _ sources flags hl
  | cons stage after ih =>
    unfold descend
    dsimp only
    generalize (if top.forks then { flags with forked := true } else flags) = flags
    cases top.redirect with
    | none => exact pays_fault _ _ hl
    | some redirect =>
      cases redirect with
      | custom r =>
        exact pays_takeOver starter sources ⟨input, before, top, stage :: after⟩ flags
          (List.cons_ne_nil stage after) hl
      | modifier m =>
        refine pays_pay _ hl ?_
        -- the new sources are covered by the allowance
        dsimp only
        cases hmade : (spreadOut limits m starter sources flags s.scene).1 with
        | stopped => exact .of_load (Nat.zero_le _) rfl (fun _ ha => absurd ha List.not_mem_nil) hl
        | onward made =>
          have hforks := length_spreadOut hmade
          have hallowance : 2 * made.length ≤ allowanceOf b limits := by
            unfold allowanceOf
            omega
          cases made with
          | nil =>
            refine (pays_finish limits level hb _ [] flags ?_).mono ?_ rfl
            · exact hl
            · simp only [List.length_nil, List.length_cons]
              omega
          | cons source rest =>
            refine (ih (top :: before) stage (source :: rest) flags ?_).mono ?_ rfl
            · exact hl
            · simp only [List.length_cons] at hallowance ⊢
              omega

/-! ### Every action -/

/-- A call leads to a walk for each line of the body. -/
theorem weight_fan_lines (body : Body standard) (source : Source) (hbody : body.Within b) :
    Task.weight Action.weight (.fan (body.lines.map (Dialect.line source))) ≤
      (5 + b.stages) * b.lines := by
  have hsum : ∀ lines : List (Chain standard), (∀ chain ∈ lines, chain.after.length ≤ b.stages) →
      Task.weight Action.weight (.fan (lines.map (Dialect.line source))) ≤
        (5 + b.stages) * lines.length := by
    intro lines hlines
    induction lines with
    | nil => exact Nat.zero_le _
    | cons chain rest ih =>
      have hrest := ih fun chain hchain => hlines chain (List.mem_cons_of_mem _ hchain)
      have hchain := hlines chain List.mem_cons_self
      rw [List.map_cons, weight_fan_cons, List.length_cons, Nat.mul_succ]
      have hline : (Dialect.line source chain).weight = 2 + chain.after.length + 2 := rfl
      omega
  exact Nat.le_trans (hsum body.lines hbody.stages) (Nat.mul_le_mul_left _ hbody.lines)

/-- Reporting an outcome changes nothing but the journal. -/
theorem host_settle (depth : Nat) (input : String) (command : Verb) (flags : Flags)
    (source : Source) (scene : Scene Host) :
    (dialect.settle depth input command flags source scene).host =
      (perform command source (scene.write (·.trace (.command depth input)))).2.host := by
  unfold Dialect.settle dialect
  dsimp only
  cases perform command source (scene.write (·.trace (.command depth input))) with
  | mk result scene' =>
    cases result with
    | ok n => rfl
    | error e => rfl

/-- No command loads or drops a function. -/
theorem library_settle (depth : Nat) (input : String) (command : Verb) (flags : Flags)
    (source : Source) (scene : Scene Host) :
    (dialect.settle depth input command flags source scene).host.library = scene.host.library := by
  rw [host_settle]
  cases command <;> rfl

/-- An action's weight is one more than what it leads to without paying. -/
theorem pays_upshot (limits : Limits) (level : Level) (hb : maxLineLength ≤ b.stages)
    {action : Action standard} (ha : ActionWithin b action) (hl : s.scene.host.library.Within b) :
    Pays b limits (action.weight - 1) s (upshot limits level action s) := by
  cases action with
  | walk chain starter sources flags =>
    have h := pays_descend (s := s.write (·.openSection (.prepare chain.input))) limits level hb
      starter chain.input chain.before chain.top chain.after sources flags hl
    refine pays_within _ _ (h.mono ?_ rfl)
    simp only [Action.weight]
    omega
  | execute input command flags source =>
    have hsettled := library_settle level.depth input command flags source
      (s.scene.write (·.openSection (.execute input)))
    refine pays_within _ (fun s => s.pay limits fun s => { standing := { s with
      scene := dialect.settle level.depth input command flags source s.scene } }) ?_
    refine pays_pay _ hl (.of_load (Nat.zero_le _) rfl (fun _ h => absurd h List.not_mem_nil) ?_)
    exact hsettled ▸ hl
  | call body returns shared source =>
    refine pays_pay (fun s =>
      { standing := s.write (·.trace (.call level.depth body.id body.lines.length))
        scope := if shared then .shared returns else .own returns
        items := body.lines.map (Dialect.line source) }) hl (.of_load ?_ rfl (fun a h => ?_) hl)
    · have hlines := weight_fan_lines body source ha
      refine Nat.le_trans (load_batch_le _) (Nat.le_trans hlines ?_)
      unfold allowanceOf
      omega
    · obtain ⟨chain, -, rfl⟩ := List.mem_map.mp h
      trivial
  | isolated body source =>
    refine .of_load (Nat.le_refl 1) rfl (fun a h => ?_) hl
    rw [List.mem_singleton.mp h]
    exact ha
  | fallthrough => exact .of_load (Nat.zero_le _) rfl (fun _ h => absurd h List.not_mem_nil) hl

/-! ### The loop -/

def TaskWithin (b : Bounds) : Task (Action standard) → Prop
  | .act action => ActionWithin b action
  | .fan items => items ≠ [] ∧ ∀ a ∈ items, ActionWithin b a

/-- A machine between two turns, with everything in it within the bounds. -/
structure Sound (b : Bounds) (m : Rig) : Prop where
  tasks : ∀ e ∈ m.queue.toList, TaskWithin b e.action
  library : m.world.host.library.Within b
  staged : m.staged = .empty

/-- The weight of what waits and the allowance of what is left of the budget. -/
def potential (b : Bounds) (m : Rig) : Nat :=
  m.fuel (Task.weight Action.weight) (allowanceOf b m.limits)

variable {m m₂ : Rig} {e : Entry (Task (Action standard))}
  {rest : List (Entry (Task (Action standard)))} {frame : Frame}

theorem potential_eq (hs : m.staged = .empty) :
    potential b m = load (m.queue.toList.map (·.action)) + reserve b m.limits m.cost := by
  have hfoldr : ∀ es : List (Entry (Task (Action standard))),
      es.foldr (fun e n => Task.weight Action.weight e.action + n) 0 = load (es.map (·.action)) := by
    intro es
    induction es with
    | nil => rfl
    | cons e es ih => exact congrArg (Task.weight Action.weight e.action + ·) ih
  unfold potential Machine.fuel Machine.weight
  rw [hs, Backlog.toList_empty, List.append_nil, hfoldr]
  rfl

theorem within_batch {items : List (Action standard)} (h : ∀ a ∈ items, ActionWithin b a) :
    ∀ task ∈ Task.batch items, TaskWithin b task :=
  Task.forall_batch h fun _ hne hleft => ⟨hne, fun a ha => h a (hleft ha)⟩

theorem within_unfolded {items : List (Action standard)} (h : ∀ a ∈ items, ActionWithin b a) :
    ∀ task ∈ Task.unfolded items, TaskWithin b task :=
  Task.forall_unfolded h fun _ hne hleft => ⟨hne, fun a ha => h a (hleft ha)⟩

theorem within_tasks {u : Upshot} (h : ∀ a ∈ u.items, ActionWithin b a) :
    ∀ task ∈ u.tasks, TaskWithin b task := by
  intro task htask
  unfold Upshot.tasks at htask
  split at htask
  · obtain ⟨a, ha, rfl⟩ := List.mem_map.mp htask
    exact h a ha
  · exact within_batch h task htask

theorem weight_task_pos {task : Task (Action standard)} (h : TaskWithin b task) :
    1 ≤ Task.weight Action.weight task := by
  cases task with
  | act a => exact weight_pos a
  | fan items =>
    cases items with
    | nil => exact absurd rfl h.1
    | cons a items =>
      rw [weight_fan_cons]
      omega

/-- Taking an entry off the queue takes its weight off. -/
theorem sound_without (h : Sound b m) (hq : m.queue.toList = e :: rest) :
    Sound b (m.without rest) ∧ potential b (m.without rest) < potential b m := by
  have htasks := h.tasks
  rw [hq] at htasks
  refine ⟨⟨fun e' he' => htasks e' (List.mem_cons_of_mem _ he'), h.library, h.staged⟩, ?_⟩
  have hpos := weight_task_pos (htasks e List.mem_cons_self)
  rw [potential_eq h.staged, potential_eq (m := m.without rest) h.staged, hq]
  change load (rest.map (·.action)) + _ <
    Task.weight Action.weight e.action + load (rest.map (·.action)) + _
  exact Nat.add_lt_add_right (by omega) _

theorem map_action_entries (frame : Frame) (stamp : UInt32) (tasks : List (Task (Action standard))) :
    (frame.entries stamp tasks).map (·.action) = tasks := by
  unfold Frame.entries
  rw [List.map_map]
  exact List.map_id _

/-- A turn that leaves its tasks in front, lighter together than its entry was. -/
theorem sound_after {stamp : UInt32} {tasks : List (Task (Action standard))} (h : Sound b m)
    (hq : m.queue.toList = e :: rest) (hqueue : m₂.queue.toList = frame.entries stamp tasks ++ rest)
    (hs : m₂.staged = .empty) (hlimits : m₂.limits = m.limits)
    (hl : m₂.world.host.library.Within b) (htasks : ∀ task ∈ tasks, TaskWithin b task)
    (hload : load tasks + reserve b m.limits m₂.cost <
      Task.weight Action.weight e.action + reserve b m.limits m.cost) :
    Sound b m₂ ∧ potential b m₂ < potential b m := by
  refine ⟨⟨fun e' he' => ?_, hl, hs⟩, ?_⟩
  · rw [hqueue] at he'
    rcases List.mem_append.mp he' with he' | he'
    · have hmem := List.mem_map_of_mem (f := (·.action)) he'
      rw [map_action_entries] at hmem
      exact htasks _ hmem
    · exact h.tasks e' (hq ▸ List.mem_cons_of_mem _ he')
  · have hfront : load (m.queue.toList.map (·.action)) =
        Task.weight Action.weight e.action + load (rest.map (·.action)) := by
      rw [hq]
      rfl
    rw [potential_eq hs, potential_eq h.staged, hqueue, hlimits, List.map_append,
      map_action_entries, load_append, hfront]
    omega

/-- Every turn that goes well brings the potential down. -/
theorem sound_perform (hb : maxLineLength ≤ b.stages) (h : Sound b m)
    (hq : m.queue.toList = e :: rest)
    (hp : Machine.perform taskMeaning (m.begin e rest) e = (none, m₂)) :
    Sound b m₂ ∧ potential b m₂ < potential b m := by
  have hlimits : m₂.limits = m.limits := Machine.limits_perform hp
  have hstaged := Machine.staged_perform hp
  have htask := h.tasks e (hq ▸ List.mem_cons_self)
  cases he : e.action with
  | act a =>
    rw [he] at htask
    have hpays := pays_upshot (s := standingOf m) m.limits (levelOf e.frame) hb htask h.library
    have hstanding := standing_act he hp
    obtain ⟨hfault, hm₂⟩ := perform_act he hp
    have hqueue := queue_settle e.frame (m := m.begin e rest) hfault h.staged
    rw [← hm₂] at hqueue
    refine sound_after h hq hqueue hstaged hlimits ?_ (within_tasks hpays.items) ?_
    · rw [show m₂.world = _ from congrArg Standing.scene hstanding]
      exact hpays.library
    · have hload := hpays.load
      have hpos := weight_pos a
      rw [show m₂.cost = _ from congrArg Standing.cost hstanding, he]
      change _ ≤ a.weight - 1 + reserve b m.limits m.cost at hload
      refine Nat.lt_of_le_of_lt hload ?_
      change _ < a.weight + reserve b m.limits m.cost
      omega
  | fan items =>
    rw [he] at htask
    have hm₂ := perform_fan he hp
    have hqueue := Machine.queue_splice_pushAll (m.begin e rest) e.frame (Task.unfolded items)
      h.staged
    rw [← hm₂] at hqueue
    have hstanding := standing_fan he hp
    refine sound_after h hq hqueue hstaged hlimits ?_ (within_unfolded htask.2) ?_
    · rw [show m₂.world = m.world from congrArg Standing.scene hstanding]
      exact h.library
    · rw [show m₂.cost = m.cost from congrArg Standing.cost hstanding, he]
      exact Nat.add_lt_add_right (load_unfolded_lt htask.1) _

/-- A run takes no more entries off the queue than its potential, and with that much fuel it comes
to its end. -/
theorem turns_le_potential (hb : maxLineLength ≤ b.stages) (fuel : Nat) (h : Sound b m) :
    (m.history taskMeaning fuel).turns ≤ potential b m ∧
      (potential b m ≤ fuel → (m.drain taskMeaning fuel).1 ≠ .unfinished) := by
  induction fuel generalizing m with
  | zero =>
    refine ⟨Nat.zero_le _, fun hle => ?_⟩
    cases hq : m.queue.toList with
    | nil =>
      rw [Machine.drain_of_nil hq]
      exact fun h => nomatch h
    | cons e rest =>
      have hless := (sound_without h hq).2
      omega
  | succ fuel ih =>
    cases hq : m.queue.toList with
    | nil =>
      rw [Machine.history_of_nil hq, Machine.drain_of_nil hq]
      exact ⟨Nat.zero_le _, fun _ h => nomatch h⟩
    | cons e rest =>
      cases hl : m.isLive e with
      | false =>
        obtain ⟨hsound, hless⟩ := sound_without h hq
        obtain ⟨hturns, hends⟩ := ih hsound
        rw [Machine.history_of_dead hq hl, Machine.drain_of_dead hq hl]
        refine ⟨?_, fun hle => hends (by omega)⟩
        rw [History.turns, List.countP_cons_of_pos rfl]
        exact Nat.lt_of_le_of_lt hturns hless
      | true =>
        have hpos := (sound_without h hq).2
        rw [Machine.history_of_live hq hl, Machine.drain_of_live hq hl, History.turns_append,
          Machine.turns_turn]
        match hp : Machine.perform taskMeaning (m.begin e rest) e with
        | (some fault, m₁) =>
          refine ⟨?_, fun _ h => nomatch h⟩
          change 1 + 0 ≤ potential b m
          omega
        | (none, m₁) =>
          obtain ⟨hsound, hless⟩ := sound_perform hb h hq hp
          obtain ⟨hturns, hends⟩ := ih hsound
          exact ⟨by dsimp only; omega, fun hle => hends (by omega)⟩

theorem sound_submitted {world : Scene Host} {callback : Callback} {action : Action standard}
    (ha : ActionWithin b action) (hl : world.host.library.Within b) :
    Sound b (submitted limits world callback action).splice := by
  refine ⟨fun e he => ?_, hl, rfl⟩
  rw [List.mem_singleton.mp he]
  exact ha

theorem exists_actionWithin (action : Action standard) (b : Bounds) :
    ∃ b' : Bounds, b.lines ≤ b'.lines ∧ b.stages ≤ b'.stages ∧ ActionWithin b' action := by
  have hbody (body : Body standard) :
      ∃ b' : Bounds, b.lines ≤ b'.lines ∧ b.stages ≤ b'.stages ∧ body.Within b' := by
    obtain ⟨n, hn⟩ := body.exists_within
    exact ⟨⟨max b.lines n, max b.stages n⟩, Nat.le_max_left .., Nat.le_max_left ..,
      hn.mono (Nat.le_max_right ..) (Nat.le_max_right ..)⟩
  cases action with
  | walk chain starter sources flags => exact ⟨b, Nat.le_refl _, Nat.le_refl _, trivial⟩
  | execute input command flags source => exact ⟨b, Nat.le_refl _, Nat.le_refl _, trivial⟩
  | call body returns shared source => exact hbody body
  | isolated body source => exact hbody body
  | fallthrough => exact ⟨b, Nat.le_refl _, Nat.le_refl _, trivial⟩

/-- Whatever is submitted, the loop takes only so many entries off the queue, however much fuel it
is given; with enough of it the run comes to its end; and no operation of it goes over the
budget. -/
theorem run_ends (limits : Limits) (world : Scene Host) (callback : Callback)
    (action : Action standard) :
    ∃ bound, ∀ fuel,
      ((submitted limits world callback action).splice.history taskMeaning fuel).turns ≤ bound ∧
        (bound ≤ fuel →
          ((submitted limits world callback action).run taskMeaning fuel).1 ≠ .unfinished) ∧
        (∀ x ∈ (submitted limits world callback action).splice.history taskMeaning fuel,
          x.2.cost ≤ limits.commands) ∧
        ((submitted limits world callback action).run taskMeaning fuel).2.cost ≤ limits.commands := by
  obtain ⟨b, hb, hl⟩ := Library.exists_within world.host.library
  obtain ⟨b', hlines, hstages, ha⟩ := exists_actionWithin action b
  have hsound : Sound b' (submitted limits world callback action).splice :=
    sound_submitted ha fun entry hentry => (hl entry hentry).mono hlines hstages
  refine ⟨potential b' (submitted limits world callback action).splice, fun fuel => ?_⟩
  obtain ⟨hturns, hends⟩ := turns_le_potential (Nat.le_trans hb hstages) fuel hsound
  obtain ⟨hall, hlast⟩ := (Machine.steady_cost limits).history taskMeaning fuel
    (m := (submitted limits world callback action).splice) ⟨rfl, Nat.zero_le _⟩
  refine ⟨hturns, hends, fun x hx => ?_, ?_⟩
  · obtain ⟨hlimits, hcost⟩ := hall x hx
    rw [hlimits] at hcost
    exact hcost
  · obtain ⟨hlimits, hcost⟩ := hlast
    rw [hlimits] at hcost
    exact hcost

/-- In a library of compiled functions the fuel a run is given is enough. -/
theorem run_compiled_ends (limits : Limits) (world : Scene Host) (callback : Callback)
    (action : Action standard) (hl : world.host.library.Sized)
    (ha : ActionWithin ⟨world.host.library.longest, maxLineLength⟩ action) :
    (run (submitted limits world callback action)).1 ≠ .unfinished := by
  have hsound : Sound ⟨world.host.library.longest, maxLineLength⟩
      (submitted limits world callback action).splice := sound_submitted ha hl.within
  have hends := (turns_le_potential (Nat.le_refl _) (potential
    ⟨world.host.library.longest, maxLineLength⟩ (submitted limits world callback action).splice)
      hsound).2 (Nat.le_refl _)
  exact hends

end Trampoline.Command
