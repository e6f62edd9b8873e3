import Trampoline.Proofs.Command.Budget
import Trampoline.Proofs.Command.Shape
import Trampoline.Proofs.Machine.Contract

/-! Runs of the standard vocabulary never fail from within.

A walk aborts where a stage has nothing to offer, and a template, a fan-out or a list
of sources could be asked for something it does not have. None of this happens: what
is parsed can be walked to its end, every fan-out that waits has an item, every walk
begins with a source, and the slots of a template are among the values it is filled
with. These facts are a contract (`contract`) that every action of the vocabulary
keeps (`upheld`); so they hold at every moment, and the ceilings are all that can end
a run early (`faults_are_ceilings`). -/
namespace Trampoline

open Command (standard)

/-! ### Functions -/

def Body.Whole (body : Body standard) : Prop := ∀ chain ∈ body.lines, chain.Whole

structure Templated.Whole (t : Templated standard) : Prop where
  plain : ∀ chain, .plain chain ∈ t.lines → chain.Whole
  /-- Each slot is the place of a parameter. -/
  slots : ∀ template slots number, .template template slots number ∈ t.lines →
    ∀ slot ∈ slots, slot < t.parameters.length
  cache : ∀ kept ∈ t.cache, kept.2.Whole

def Function.Whole : Function standard → Prop
  | .plain body => body.Whole
  | .templated t => t.Whole

def Library.Whole (l : Library) : Prop := ∀ entry ∈ l, entry.2.Whole

/-- A template is filled from a value for each parameter. -/
theorem Templated.length_of_key {t : Templated standard} {arguments : Option Record}
    {values : List String} (h : t.key arguments = .ok values) :
    values.length = t.parameters.length := by
  unfold key at h
  split at h
  · cases h
  · exact (mem_of_mapM_ok h).1

/-- No template of a library has a slot beyond the values it is filled with, whatever the
arguments. -/
def Library.Fillable (l : Library) : Prop :=
  ∀ name t, (name, .templated t) ∈ l → ∀ arguments values, t.key arguments = .ok values →
    ∀ template slots number, .template template slots number ∈ t.lines →
      ∀ slot ∈ slots, slot < values.length

theorem Library.Whole.fillable {l : Library} (h : l.Whole) : l.Fillable := by
  intro name t hentry arguments values hkey template slots number hline slot hslot
  have ht : t.Whole := h _ hentry
  rw [Templated.length_of_key hkey]
  exact ht.slots template slots number hline slot hslot

theorem Templated.whole_instantiate {t : Templated standard} {permission : Nat} (ht : t.Whole)
    (arguments : Option Record) :
    (∀ body, (t.instantiate (Command.parse permission) arguments).1 = .ok body → body.Whole) ∧
      (t.instantiate (Command.parse permission) arguments).2.Whole := by
  rcases t.instantiate_cases (Command.parse permission) arguments with
    ⟨e, h⟩ | ⟨values, body, cache, made, h, hbody, hcache⟩
  · rw [h]
    exact ⟨fun _ h => (nomatch h), ht⟩
  · have hwhole : body.Whole := by
      rcases hbody with hkept | hbuild
      · exact ht.cache (values, body) hkept
      · intro chain hchain
        rcases (lines_of_build hbuild).2 chain hchain with hplain | ⟨text, -, hparse⟩
        · exact ht.plain chain hplain
        · exact Command.whole_of_parse hparse
    rw [h]
    refine ⟨fun body' h => Except.ok.inj h ▸ hwhole, ht.plain, ht.slots, fun kept hkept => ?_⟩
    rcases hcache kept hkept with rfl | hkept
    · exact hwhole
    · exact ht.cache kept hkept

theorem Function.whole_instantiate {f : Function standard} (hf : f.Whole)
    (arguments : Option Record) :
    (∀ body, (f.instantiate Command.parse arguments).1 = .ok body → body.Whole) ∧
      (f.instantiate Command.parse arguments).2.Whole := by
  cases f with
  | plain body => exact ⟨fun body' h => Except.ok.inj h ▸ hf, hf⟩
  | templated t => exact Templated.whole_instantiate hf arguments

theorem Library.whole_instantiate {l : Library} (hl : l.Whole) (id : String)
    (arguments : Option Record) :
    (∀ body, (l.instantiate id arguments).1 = .ok body → body.Whole) ∧
      (l.instantiate id arguments).2.Whole :=
  instantiate_keeps (fun _ hf => Function.whole_instantiate hf) hl id arguments

namespace Compile

theorem whole_assemble {id : String} {permission : Nat} {items : List (Item standard)}
    (h : ∀ chain, .command chain ∈ items → chain.Whole) :
    (assemble id permission items).Whole := by
  unfold assemble
  split
  · next chains hchains => exact fun chain hchain => h chain (mem_of_chains? hchains chain hchain)
  · refine ⟨fun chain hchain => ?_, fun template slots number hline slot hslot => ?_,
      fun _ hkept => absurd hkept List.not_mem_nil⟩
    · obtain ⟨item, hitem, heq⟩ := List.mem_map.mp hchain
      cases item with
      | template template line => cases heq
      | command chain' =>
        cases heq
        exact h chain hitem
    · obtain ⟨item, hitem, heq⟩ := List.mem_map.mp hline
      cases item with
      | command chain => cases heq
      | template template' line =>
        cases heq
        obtain ⟨name, hname, rfl⟩ := List.mem_map.mp hslot
        exact List.idxOf_lt_length_of_mem (mem_parametersOf hitem hname)

end Compile

/-- What compiling a text gives, and what calls make of it. -/
inductive Function.Compiled : Function standard → Prop where
  | text {id : String} {permission : Nat} {lines : List String} {f : Function standard}
      (h : Function.compile Command.parse id permission lines = .ok f) : Compiled f
  | used {f : Function standard} (h : Compiled f) (arguments : Option Record) :
      Compiled (f.instantiate Command.parse arguments).2

def Library.Compiled (l : Library) : Prop := ∀ entry ∈ l, entry.2.Compiled

theorem Function.Compiled.whole {f : Function standard} (h : f.Compiled) : f.Whole := by
  induction h with
  | text h =>
    obtain ⟨items, hitems, h⟩ := Command.ok_of_bind h
    cases h
    refine Compile.whole_assemble fun chain hchain => ?_
    obtain ⟨item, hitem, rfl⟩ := List.mem_filterMap.mp hchain
    obtain ⟨line, -, hread⟩ := (mem_of_mapM_ok hitems).2 _ hitem
    obtain ⟨text, -, hparse⟩ := Compile.parse_of_readJoined hread
    exact Command.whole_of_parse hparse
  | used h arguments ih => exact (Function.whole_instantiate ih arguments).2

theorem Library.Compiled.whole {l : Library} (h : l.Compiled) : l.Whole :=
  fun entry hentry => (h entry hentry).whole

/-- Loading a text keeps a library of compiled functions one. -/
theorem Library.compiled_loadLines {l l' : Library} {id name : String} {lines : List String}
    (hl : l.Compiled) (h : l.loadLines id lines = .ok (name, l')) : l'.Compiled := by
  obtain ⟨f, hf, h⟩ := Command.ok_of_bind h
  cases h
  intro entry hentry
  rcases NameMap.mem_insert hentry with rfl | hentry
  · exact .text hf
  · exact hl entry hentry

namespace Command

/-! ### The contract of the vocabulary -/

def ActionWhole : Action standard → Prop
  | .walk chain _ sources _ => chain.Whole ∧ sources ≠ []
  | .execute .. => True
  | .call body .. => body.Whole
  | .isolated body _ => body.Whole
  | .fallthrough => True

def TaskWhole : Task (Action standard) → Prop
  | .act action => ActionWhole action
  | .fan items => items ≠ [] ∧ ∀ a ∈ items, ActionWhole a

/-- Only whole tasks are queued, the library stays whole, and a spent budget is the only fault. -/
def contract (limits : Limits) : Contract (Scene Host) (Task (Action standard)) where
  limits
  fault fault := fault = .ofCeiling (.commandCost limits.commands)
  action := TaskWhole
  world scene := scene.host.library.Whole

variable {limits : Limits} {frame : Frame}

/-- Work that keeps the contract. -/
abbrev Tidy (limits : Limits) (w : Deed standard Host Unit) : Prop :=
  w.Keeps (contract limits) fun _ => True

theorem tidy_pay : Tidy limits (Work.pay 1) := Work.keeps_pay rfl

theorem tidy_within (activity : Activity) {w : Deed standard Host Unit} (hw : Tidy limits w) :
    Tidy limits (Dialect.within activity w) :=
  (Work.keeps_change fun _ h => h).bind fun _ _ => hw.ensuring fun _ h => h

theorem tidy_schedule {items : List (Action standard)} (h : ∀ a ∈ items, ActionWhole a) :
    Tidy limits (Task.schedule .plain frame items) := by
  rw [Task.schedule_plain]
  exact Work.keeps_forM fun task htask => Work.keeps_enqueue <|
    Task.forall_batch (P := TaskWhole) h (fun _ hne hleft => ⟨hne, fun a ha => h a (hleft ha)⟩)
      task htask

theorem tidy_unfold {items : List (Action standard)} (h : ∀ a ∈ items, ActionWhole a) :
    Tidy limits (Task.unfold .plain frame items) := by
  rw [Task.unfold_plain]
  exact Work.keeps_forM fun task htask => Work.keeps_enqueue <|
    Task.forall_unfolded (P := TaskWhole) h (fun _ hne hleft => ⟨hne, fun a ha => h a (hleft ha)⟩)
      task htask

/-! ### The last stage -/

theorem tidy_withBody {id : String} {arguments : Option Record} {source : Source} {flags : Flags}
    {next : Body standard → Deed standard Host Unit}
    (h : ∀ body, body.Whole → Tidy limits (next body)) :
    Tidy limits (withBody id arguments source flags next) := by
  unfold withBody
  refine Work.Keeps.bind (R := fun result => ∀ body, result = .ok body → body.Whole)
    (Work.keeps_act fun s hs => ?_) fun result hresult => ?_
  · obtain ⟨hbody, hlibrary⟩ := Library.whole_instantiate hs id arguments
    exact ⟨hlibrary, hbody⟩
  · cases result with
    | ok body => exact h body (hresult body rfl)
    | error e => exact Work.keeps_change fun _ h => h

theorem tidy_execute (e : Executor) (source : Source) (chain : Chain standard) (flags : Flags) :
    Tidy limits (execute e source chain flags frame) := by
  cases e with
  | «return» value => exact ⟨fun _ h => h, fun _ h => h, trivial⟩
  | function id arguments =>
    refine tidy_withBody fun body hbody => Work.keeps_enqueue ?_
    cases flags.returning with
    | true => exact hbody
    | false => exact hbody
  | trigger id =>
    change Tidy limits (withBody id none source flags fun body =>
      Work.enqueue frame (.act (.isolated body source)))
    exact tidy_withBody fun body hbody => Work.keeps_enqueue hbody

/-- The end of a walk that has run out of sources, or has come to a stage that runs something. -/
theorem tidy_finish {chain : Chain standard} {sources : List Source} (flags : Flags)
    (h : sources = [] ∨ chain.top.executable.isSome) :
    Tidy limits (dialect.finish frame chain sources flags) := by
  unfold Dialect.finish
  by_cases hempty : sources.isEmpty
  · rw [if_pos hempty]
    split
    · exact Work.keeps_enqueue trivial
    · exact trivial
  · rw [if_neg hempty]
    have hsome := h.resolve_left fun h => hempty (List.isEmpty_iff.mpr h)
    split
    · exact Work.keeps_forM fun source _ => tidy_execute _ source chain flags
    · refine tidy_schedule fun a ha => ?_
      obtain ⟨source, -, rfl⟩ := List.mem_map.mp ha
      trivial
    · next hnone =>
      rw [hnone] at hsome
      cases hsome

/-! ### The walk -/

theorem tidy_redirectAll {modifier : Modifier} {starter : Source} {sources : List Source}
    {flags : Flags} {next : Spread → Deed standard Host Unit}
    (h : ∀ result, Tidy limits (next result)) :
    Tidy limits (do next (← dialect.redirectAll modifier starter sources flags)) := by
  refine Work.Keeps.bind (R := fun _ => True) ?_ fun result _ => h result
  exact tidy_pay.bind fun _ _ _ => Work.keeps_act fun _ hs => ⟨hs, trivial⟩

theorem tidy_returnRun {starter : Source} {sources : List Source} {flags : Flags} {input : String}
    {before : List (Stage standard)} {top stage : Stage standard} {after : List (Stage standard)}
    (h : Chain.wellShaped (top :: stage :: after)) :
    Tidy limits (returnRun starter sources ⟨input, before, top, stage :: after⟩ flags frame) := by
  unfold returnRun
  by_cases hempty : sources.isEmpty
  · rw [if_pos hempty]
    split
    · exact Work.keeps_enqueue trivial
    · exact trivial
  · rw [if_neg hempty]
    exact Work.keeps_enqueue
      ⟨(Chain.wellShaped_cons_cons h).2, fun h => hempty (List.isEmpty_iff.mpr h)⟩

theorem tidy_descend {starter : Source} {input : String} {before : List (Stage standard)}
    {top : Stage standard} {after : List (Stage standard)} {sources : List Source} {flags : Flags}
    (h : Chain.wellShaped (top :: after)) :
    Tidy limits (dialect.descend frame starter input before top after sources flags) := by
  induction after generalizing before top sources flags with
  | nil => exact tidy_finish flags (.inr h)
  | cons stage after ih =>
    obtain ⟨hredirects, hrest⟩ := Chain.wellShaped_cons_cons h
    unfold Dialect.descend
    dsimp only
    generalize (if top.forks then { flags with forked := true } else flags) = flags
    cases hr : top.redirect with
    | none =>
      rw [hr] at hredirects
      cases hredirects
    | some redirect =>
      cases redirect with
      | custom r => exact tidy_returnRun h
      | modifier modifier =>
        refine tidy_redirectAll fun result => ?_
        cases result with
        | stopped => exact trivial
        | onward sources =>
          cases sources with
          | nil => exact tidy_finish flags (.inl rfl)
          | cons source rest => exact ih hrest

/-! ### The run -/

theorem tidy_meaning {action : Action standard} (h : ActionWhole action) :
    Tidy limits (dialect.meaning action frame) := by
  cases action with
  | walk chain starter sources flags => exact tidy_within _ (tidy_descend h.1)
  | execute input command flags source =>
    refine tidy_within _ (tidy_pay.bind fun _ _ => Work.keeps_change fun scene hs => ?_)
    have hsettled : (dialect.settle frame.depth input command flags source scene).host.library =
        scene.host.library := library_settle ..
    change Library.Whole _
    rw [hsettled]
    exact hs
  | call body returns shared source =>
    have hlines : ∀ a ∈ body.lines.map (Dialect.line source), ActionWhole a := by
      intro a ha
      obtain ⟨chain, hchain, rfl⟩ := List.mem_map.mp ha
      exact ⟨h chain hchain, List.cons_ne_nil _ _⟩
    refine tidy_pay.bind fun _ _ => (Work.keeps_change fun _ hs => hs).bind fun _ _ => ?_
    cases shared with
    | true => exact tidy_schedule hlines
    | false => exact fun g => tidy_schedule hlines
  | isolated body source => exact fun g => Work.keeps_enqueue h
  | fallthrough => exact ⟨fun _ h => h, trivial⟩

theorem upheld (limits : Limits) : Machine.Upheld (contract limits) taskMeaning where
  keeps task frame h := by
    cases task with
    | act action => exact tidy_meaning h
    | fan items => exact tidy_unfold h.2
  hear _ _ _ h := h

/-- The machines that submissions lead to, one after another: commands that were parsed, and calls
of bodies the library makes, with runs in between. The host may be changed at any time, as long as
its functions are compiled ones. -/
inductive Reached : Rig → Prop where
  | fresh (limits : Limits) (world : Scene Host) (hl : world.host.library.Compiled) :
      Reached { limits, world }
  | hosted {m : Rig} (h : Reached m) (world : Scene Host) (hl : world.host.library.Compiled) :
      Reached { m with world }
  | command {m : Rig} {permission : Nat} {input : String} {chain : Chain standard} (h : Reached m)
      (hparse : parse permission input = .ok chain) (source : Source) (callback : Callback) :
      Reached (m.submit callback (.act (.command chain source)))
  | call {m : Rig} {id : String} {arguments : Option Record} {body : Body standard} (h : Reached m)
      (hbody : (m.world.host.library.instantiate id arguments).1 = .ok body) (source : Source)
      (callback returns : Callback) :
      Reached (m.submit callback (.act (.outerCall body source returns)))
  | ran {m : Rig} (h : Reached m) (fuel : Nat) : Reached (m.run taskMeaning fuel).2

variable {m : Rig}

/-- A submission is a push on a machine that may have one more governor. -/
theorem submit_eq (m : Rig) (callback : Callback) (task : Task (Action standard)) :
    ∃ frame governors byDepth,
      m.submit callback task = Machine.push { m with governors, byDepth } frame task := by
  unfold Machine.submit Machine.governorAt
  cases m.byDepth.lookup 0 with
  | some g => exact ⟨_, m.governors, m.byDepth, rfl⟩
  | none => exact ⟨_, _, _, rfl⟩

theorem observes_submit {c : Contract (Scene Host) (Task (Action standard))} (h : m.Observes c)
    (callback : Callback) {task : Task (Action standard)} (ha : c.action task) :
    (m.submit callback task).Observes c := by
  obtain ⟨frame, governors, byDepth, hsubmit⟩ := submit_eq m callback task
  have hgoverned : Machine.Observes c { m with governors, byDepth } := h.of_eq rfl rfl rfl rfl
  rw [hsubmit]
  exact hgoverned.push frame ha

theorem limits_submit (m : Rig) (callback : Callback) (task : Task (Action standard)) :
    (m.submit callback task).limits = m.limits := by
  obtain ⟨frame, governors, byDepth, hsubmit⟩ := submit_eq m callback task
  rw [hsubmit]
  rfl

theorem Reached.observes (h : Reached m) : m.Observes (contract m.limits) := by
  induction h with
  | fresh limits world hl =>
    exact ⟨rfl, hl.whole, fun _ he => absurd he List.not_mem_nil,
      fun _ he => absurd he List.not_mem_nil⟩
  | hosted h world hl ih => exact ⟨rfl, hl.whole, ih.queue, ih.staged⟩
  | command h hparse source callback ih =>
    rw [limits_submit]
    exact observes_submit ih callback ⟨whole_of_parse hparse, List.cons_ne_nil _ _⟩
  | @call m id arguments body h hbody source callback returns ih =>
    rw [limits_submit]
    exact observes_submit ih callback ((Library.whole_instantiate ih.world id arguments).1 body hbody)
  | @ran m h fuel ih =>
    have hrun := (Machine.observes_history (upheld m.limits) fuel ih.splice).2.2.1
    rw [show (m.run taskMeaning fuel).2.limits = m.limits from hrun.limits]
    exact hrun

/-! ### Enough fuel -/

theorem ActionWithin.mono {b b' : Bounds} {a : Action standard} (h : ActionWithin b a)
    (hl : b.lines ≤ b'.lines) (hs : b.stages ≤ b'.stages) : ActionWithin b' a := by
  cases a with
  | walk chain starter sources flags => trivial
  | execute input command flags source => trivial
  | call body returns shared source => exact Body.Within.mono h hl hs
  | isolated body source => exact Body.Within.mono h hl hs
  | fallthrough => trivial

theorem exists_forall_actionWithin (actions : List (Action standard)) :
    ∃ n, ∀ a ∈ actions, ActionWithin ⟨n, n⟩ a := by
  refine exists_forall_mem actions (fun _ _ _ hle h => h.mono hle hle) fun a _ => ?_
  obtain ⟨b, -, -, h⟩ := exists_actionWithin a ⟨0, 0⟩
  exact ⟨max b.lines b.stages, h.mono (Nat.le_max_left ..) (Nat.le_max_right ..)⟩

/-- Whatever waits has bounds. -/
theorem exists_sound (h : m.Observes (contract limits)) (hs : m.staged = .empty) :
    ∃ b : Bounds, maxLineLength ≤ b.stages ∧ Sound b m := by
  obtain ⟨b, hb, hl⟩ := Library.exists_within m.world.host.library
  obtain ⟨n, hn⟩ := exists_forall_actionWithin
    (m.queue.toList.flatMap fun e => Task.items e.action)
  refine ⟨⟨max b.lines n, max b.stages n⟩, Nat.le_trans hb (Nat.le_max_left ..),
    fun e he => ?_, fun entry hentry => (hl entry hentry).mono (Nat.le_max_left ..)
      (Nat.le_max_left ..), hs⟩
  have hitems : ∀ a ∈ Task.items e.action, ActionWithin ⟨max b.lines n, max b.stages n⟩ a :=
    fun a ha => (hn a (List.mem_flatMap.mpr ⟨e, he, ha⟩)).mono (Nat.le_max_right ..)
      (Nat.le_max_right ..)
  have hwhole := h.queue e he
  cases hact : e.action with
  | act a =>
    rw [hact] at hitems
    exact hitems a List.mem_cons_self
  | fan items =>
    rw [hact] at hitems hwhole
    exact ⟨hwhole.1, hitems⟩

/-- What is left for a command to be executed with, when its result is what the frame returns, is
the first source. -/
theorem finish_returning {chain : Chain standard} {c : Verb} {flags : Flags}
    (hc : chain.top.executable = some (.command c)) (hr : flags.returning) (frame : Frame)
    (first : Source) (rest : List Source) :
    dialect.finish frame chain (first :: rest) flags =
      Work.enqueue frame (.act (.execute chain.input c flags
        (first.reportingTo (first.callback.chain frame.returns)))) := by
  unfold Dialect.finish Dialect.executing
  rw [if_neg (by simp), hc, if_pos hr]
  rfl

/-- Every line that resolves is a chain that can be walked to its end, and a line is refused for no
other reason than that it does not resolve. Where the first of the sources is asked for, there is
one. On every machine that submissions lead to, at every moment of every run, only whole tasks wait
and are performed, and no template has a slot beyond the values it is filled with. A run comes to
its end, and if it is aborted, then at a ceiling. -/
theorem faults_are_ceilings :
    (∀ permission input,
      (∀ stages, resolve permission input = .ok stages →
        Chain.Complete stages ∧ ∃ chain, parse permission input = .ok chain ∧ chain.stages = stages) ∧
      ∀ e, parse permission input = .error e → resolve permission input = .error e) ∧
    (∀ (chain : Chain standard) (c : Verb) (flags : Flags) (frame : Frame) (sources : List Source),
      chain.top.executable = some (.command c) → flags.returning → sources ≠ [] →
        ∃ first ∈ sources.head?, dialect.finish frame chain sources flags =
          Work.enqueue frame (.act (.execute chain.input c flags
            (first.reportingTo (first.callback.chain frame.returns))))) ∧
    ∀ m : Rig, Reached m →
      (∀ fuel,
        (∀ x ∈ m.splice.history taskMeaning fuel,
          x.2.Observes (contract m.limits) ∧ x.2.world.host.library.Fillable) ∧
        ∀ e ∈ (m.splice.history taskMeaning fuel).performed, TaskWhole e.action) ∧
      ∃ least, ∀ fuel, least ≤ fuel →
        (∃ cost deepest, (m.run taskMeaning fuel).1 = .finished cost deepest) ∨
        (m.run taskMeaning fuel).1 = .aborted (.ofCeiling (.commandCost m.limits.commands)) ∨
        (m.run taskMeaning fuel).1 = .aborted (.ofCeiling (.queueOverflow m.limits.queue)) := by
  refine ⟨fun permission input => ⟨fun stages h => ?_, fun e h => ?_⟩,
    fun chain c flags frame sources hc hr hne => ?_, fun m hm => ?_⟩
  · obtain ⟨chain, hparse, hstages, -⟩ := parse_of_resolve h
    exact ⟨Chain.wellShaped_iff.mp (wellShaped_of_resolve h), chain, hparse, hstages⟩
  · cases hresolve : resolve permission input with
    | error e' =>
      cases (parse_of_refused hresolve).symm.trans h
      rfl
    | ok stages =>
      obtain ⟨chain, hparse, -⟩ := parse_of_resolve hresolve
      cases hparse.symm.trans h
  · obtain ⟨first, rest, rfl⟩ := List.exists_cons_of_ne_nil hne
    exact ⟨first, rfl, finish_returning hc hr frame first rest⟩
  · have hspliced := hm.observes.splice
    refine ⟨fun fuel => ?_, ?_⟩
    · obtain ⟨hall, hperformed, -⟩ := Machine.observes_history (upheld m.limits) fuel hspliced
      exact ⟨fun x hx => ⟨hall x hx, (hall x hx).world.fillable⟩, hperformed⟩
    · obtain ⟨b, hb, hsound⟩ := exists_sound hspliced rfl
      refine ⟨potential b m.splice, fun fuel hfuel => ?_⟩
      have hends := (turns_le_potential hb fuel hsound).2 hfuel
      have hfaults := (Machine.observes_history (upheld m.limits) fuel hspliced).2.2.2
      change (m.run taskMeaning fuel).1 ≠ .unfinished at hends
      change ∀ fault, (m.run taskMeaning fuel).1 = .aborted fault → _ at hfaults
      cases hending : (m.run taskMeaning fuel).1 with
      | finished cost deepest => exact .inl ⟨cost, deepest, rfl⟩
      | aborted fault =>
        rcases hfaults fault hending with rfl | rfl
        · exact .inr (.inl rfl)
        · exact .inr (.inr rfl)
      | unfinished => exact absurd hending hends

/-- A function with a variable. -/
def greetings : Library :=
  match Library.loadLines [] "m:greet" ["say hello $(name)", "return 1"] with
  | .ok (_, library) => library
  | .error _ => []

/-- A machine on which that function and a line that calls it wait. -/
def greeter (body : Body standard) (chain : Chain standard) : Rig :=
  let caller : Source := { name := "console", permission := 2 }
  let idle : Rig := { limits := {}, world := ⟨{}, { library := greetings }⟩ }
  (idle.submit (.one "caller") (.act (.outerCall body caller (.one "caller")))).submit (.one "line")
    (.act (.command chain caller))

theorem greeter_faults_are_ceilings :
    ∃ body chain,
      (greetings.instantiate "m:greet" (some [("name", .text "you")])).1 = .ok body ∧
      parse 2 "execute as a,b run return run function m:greet" = .ok chain ∧
      Reached (greeter body chain) ∧ (greeter body chain).pending = 2 ∧
      ∀ fuel, ∀ e ∈ ((greeter body chain).splice.history taskMeaning fuel).performed,
        TaskWhole e.action := by
  obtain ⟨name, hload⟩ : ∃ name,
      Library.loadLines [] "m:greet" ["say hello $(name)", "return 1"] = .ok (name, greetings) :=
    ⟨_, rfl⟩
  obtain ⟨body, hbody⟩ : ∃ body,
      (greetings.instantiate "m:greet" (some [("name", .text "you")])).1 = .ok body := ⟨_, rfl⟩
  obtain ⟨chain, hchain⟩ : ∃ chain,
      parse 2 "execute as a,b run return run function m:greet" = .ok chain := ⟨_, rfl⟩
  have hcompiled : greetings.Compiled :=
    Library.compiled_loadLines (fun _ hentry => absurd hentry List.not_mem_nil) hload
  have hreached : Reached (greeter body chain) :=
    .command (.call (.fresh {} ⟨{}, { library := greetings }⟩ hcompiled) hbody _ _ _) hchain _ _
  refine ⟨body, chain, hbody, hchain, hreached, rfl, fun fuel => ?_⟩
  exact ((faults_are_ceilings.2.2 _ hreached).1 fuel).2

end Command

end Trampoline
