import Trampoline.Proofs.Command.Growth

/-! Limits only cut a run short.

A run that comes to its end under some limits is run again under others that fork
alike. If its cost and its peak are within the new limits it comes to the same end;
if not, it goes the same way up to the entry where the first of the new limits is
passed, and is aborted there (`runs_limited`).

A turn of the full run is compared with the same turn under the new limits: an
action that finds the budget spent leaves less than the full one does
(`cut_upshot`), and the flag for too many entries is only looked at when the turn is
over (`perform_limited`). -/
namespace Trampoline.Command

/-! ### One action -/

/-- What an action comes to under a budget of `commands`, if `u` is what it comes to under a budget
that covers it: the same, or the budget is spent on the way. -/
inductive Cut (commands : Nat) (u : Upshot) : Upshot → Prop where
  | whole (hcost : u.standing.cost ≤ commands) : Cut commands u u
  | short {u' : Upshot} (hfault : u'.fault = some (.ofCeiling (.commandCost commands)))
      (hspent : u'.standing.cost = commands) (hover : commands < u.standing.cost)
      (hbefore : u'.standing.scene.journal.Before u.standing.scene.journal) : Cut commands u u'

variable {limits other : Limits} {level : Level} {s : Standing} {commands : Nat} {u u' : Upshot}

theorem cut_pay {next next' : Standing → Upshot} (hs : s.cost ≤ other.commands)
    (hf : (s.pay limits next).fault = none)
    (hgrows : ∀ s : Standing, s.Before (next s).standing)
    (h : ∀ s : Standing, s.cost ≤ other.commands → (next s).fault = none →
      Cut other.commands (next s) (next' s)) :
    Cut other.commands (s.pay limits next) (s.pay other next') := by
  unfold Standing.pay at hf ⊢
  by_cases hroom : s.cost < limits.commands
  · rw [if_pos hroom] at hf ⊢
    by_cases hleft : s.cost < other.commands
    · rw [if_pos hleft]
      exact h _ hleft hf
    · have hspent : s.cost = other.commands := Nat.le_antisymm hs (Nat.le_of_not_lt hleft)
      have hnext := hgrows { s with cost := s.cost + 1 }
      rw [if_neg hleft]
      refine .short rfl hspent ?_ hnext.journal
      rw [← hspent]
      exact hnext.cost
  · rw [if_neg hroom] at hf
    cases hf

theorem cut_within {activity : Activity} (run run' : Standing → Upshot)
    (h : ∀ s' : Standing, s'.cost = s.cost → (run s').fault = none →
      Cut commands (run s') (run' s'))
    (hf : (s.within activity run).fault = none) :
    Cut commands (s.within activity run) (s.within activity run') := by
  have hrun := h (s.write (·.openSection activity)) rfl hf
  unfold Standing.within
  generalize run' (s.write (·.openSection activity)) = u' at hrun ⊢
  cases hrun with
  | whole hcost => exact .whole hcost
  | short hfault hspent hover hbefore =>
    exact .short hfault hspent hover (hbefore.closeSection.trans (Journal.before_closeSection _))

theorem cut_descend (hforks : other.forks = limits.forks) (level : Level) (starter : Source)
    (input : String) (before : List (Stage standard)) (top : Stage standard)
    (after : List (Stage standard)) (sources : List Source) (flags : Flags)
    (hs : s.cost ≤ other.commands)
    (hf : (descend limits level starter input before top after sources flags s).fault = none) :
    Cut other.commands (descend limits level starter input before top after sources flags s)
      (descend other level starter input before top after sources flags s) := by
  have hfinish : ∀ chain sources flags (s : Standing), s.cost ≤ other.commands →
      Cut other.commands (finish level chain sources flags s) (finish level chain sources flags s) :=
    fun chain sources flags s hs => .whole (Nat.le_trans (Nat.le_of_eq (cost_finish ..)) hs)
  induction after generalizing before top sources flags s with
  | nil => exact hfinish _ _ _ _ hs
  | cons stage after ih =>
    cases htop : top.redirect with
    | none =>
      rw [descend, htop] at hf
      cases hf
    | some redirect =>
      cases redirect with
      | custom r =>
        cases r
        rw [descend, descend, htop]
        refine .whole ?_
        dsimp only
        rw [standing_takeOver]
        exact hs
      | modifier modifier =>
        rw [descend_modifier _ _ _ _ _ _ _ _ _ htop rfl] at hf ⊢
        rw [descend_modifier _ _ _ _ _ _ _ _ _ htop rfl]
        refine cut_pay hs hf (before_walkOn (fun _ _ => before_descend ..) modifier sources) ?_
        intro s hs hf
        have hspread : ∀ flags, spreadOut other modifier starter sources flags s.scene =
            spreadOut limits modifier starter sources flags s.scene := by
          intro flags
          unfold spreadOut
          rw [hforks]
        rw [hspread]
        generalize spreadOut limits modifier starter sources _ s.scene = made at hf ⊢
        obtain ⟨result, scene⟩ := made
        cases result with
        | stopped => exact .whole hs
        | onward made =>
          cases made with
          | nil => exact hfinish _ _ _ _ hs
          | cons source rest => exact ih _ _ _ _ hs hf

theorem cut_upshot (hforks : other.forks = limits.forks) (level : Level) (action : Action standard)
    (hs : s.cost ≤ other.commands) (hf : (upshot limits level action s).fault = none) :
    Cut other.commands (upshot limits level action s) (upshot other level action s) := by
  cases action with
  | walk chain starter sources flags =>
    exact cut_within _ _ (fun s' hs' => cut_descend hforks _ _ _ _ _ _ _ _ (hs' ▸ hs)) hf
  | execute input verb flags source =>
    refine cut_within _ (fun s => s.pay other fun s =>
      { standing :=
          { s with scene := dialect.settle level.depth input verb flags source s.scene } }) ?_ hf
    intro s' hs' hf
    exact cut_pay (hs' ▸ hs) hf (fun s => ⟨Nat.le_refl _, before_settle ..⟩)
      (fun s hs _ => .whole hs)
  | call body returns shared source =>
    exact cut_pay hs hf (fun s => ⟨Nat.le_refl _, Journal.before_trace ..⟩)
      (fun s hs _ => .whole hs)
  | isolated body source => exact .whole hs
  | fallthrough => exact .whole hs

/-! ### One turn -/

variable {m m₁ m₂ m' : Rig} {frame : Frame} {e : Entry (Task (Action standard))}
  {rest : List (Entry (Task (Action standard)))} {n cost deepest : Nat} {h : RigHistory}
  {ending : Ending}

/-- The machine under other limits, with the flag as it is there. -/
def limited (other : Limits) (overflow : Bool) (m : Rig) : Rig := { m with limits := other, overflow }

theorem limited_pushAll (other : Limits) (overflow : Bool) (m : Rig) (frame : Frame)
    (tasks : List (Task (Action standard))) :
    ∃ overflow', (limited other overflow m).pushAll frame tasks =
      limited other overflow' (m.pushAll frame tasks) := by
  induction tasks generalizing m overflow with
  | nil => exact ⟨overflow, rfl⟩
  | cons task rest ih => exact ih _ (m.push frame task)

theorem limited_discardTimes (other : Limits) (overflow : Bool) (m : Rig) (g : GovernorId) (n : Nat) :
    (limited other overflow m).discardTimes g n = limited other overflow (m.discardTimes g n) := by
  induction n generalizing m with
  | zero => rfl
  | succ n ih => exact ih (m.discard g)

theorem limited_ready (other : Limits) (overflow : Bool) (u : Upshot) (frame : Frame) (m : Rig) :
    u.ready frame (limited other overflow m) = limited other overflow (u.ready frame m) := by
  have hon : u.standing.on (limited other overflow m) = limited other overflow (u.standing.on m) := rfl
  unfold Upshot.ready
  rw [hon, limited_discardTimes]
  cases u.scope <;> rfl

/-- What a task does under other limits, if it leaves `m` under limits that cover it: the same, or
the budget is spent on the way. -/
inductive Parted (other : Limits) (m : Rig) : Except Fault Unit × Rig → Prop where
  | whole (overflow : Bool) (hcost : m.cost ≤ other.commands) :
    Parted other m (.ok (), limited other overflow m)
  | short {m' : Rig} (hspent : m'.cost = other.commands) (hover : other.commands < m.cost)
      (hbefore : m'.world.journal.Before m.world.journal) :
    Parted other m (.error (.ofCeiling (.commandCost other.commands)), m')

/-- Only an action without a fault ends well. -/
theorem fault_of_settle (hx : u.settle frame m = (.ok (), m₁)) : u.fault = none := by
  cases hf : u.fault with
  | none => rfl
  | some fault =>
    rw [Upshot.settle, hf] at hx
    cases hx

theorem settle_limited (overflow : Bool) (hcut : Cut other.commands u u')
    (hx : u.settle frame m = (.ok (), m₁)) :
    Parted other m₁ (u'.settle frame (limited other overflow m)) := by
  have hf := fault_of_settle hx
  have hstanding := standing_settle u frame m
  rw [hx] at hstanding
  rcases hcut with hcost | ⟨hfault, hspent, hover, hbefore⟩
  · rw [settle_of_no_fault frame m hf] at hx
    obtain ⟨overflow', hpush⟩ := limited_pushAll other overflow (u.ready frame m)
      (u.scope.frame frame m.governors.size) u.tasks
    rw [settle_of_no_fault frame _ hf, limited_ready]
    change Parted other m₁ (.ok (), (limited other overflow (u.ready frame m)).pushAll
      (u.scope.frame frame m.governors.size) u.tasks)
    obtain ⟨-, hm₁⟩ := Prod.mk.inj hx
    rw [hpush, hm₁]
    rw [← hstanding] at hcost
    exact .whole overflow' hcost
  · unfold Upshot.settle
    rw [hfault]
    rw [← hstanding] at hover hbefore
    exact .short hspent hover hbefore

theorem exec_limited (task : Task (Action standard)) (frame : Frame) (overflow : Bool)
    (hforks : other.forks = m.limits.forks) (hs : m.cost ≤ other.commands)
    (hx : (taskMeaning task frame).exec m = (.ok (), m₁)) :
    Parted other m₁ ((taskMeaning task frame).exec (limited other overflow m)) := by
  cases task with
  | act a =>
    have hfull := (meaning_yields a frame m).exec.symm.trans hx
    have hcut := cut_upshot hforks (levelOf frame) a (s := standingOf m) hs (fault_of_settle hfull)
    have hother : (taskMeaning (.act a) frame).exec (limited other overflow m) =
        (upshot other (levelOf frame) a (standingOf m)).settle frame (limited other overflow m) :=
      (meaning_yields a frame (limited other overflow m)).exec
    rw [hother]
    exact settle_limited overflow hcut hfull
  | fan items =>
    have hfan := (Task.exec_unfold frame items m).symm.trans hx
    obtain ⟨overflow', hpush⟩ := limited_pushAll other overflow m frame (Task.unfolded items)
    have hother : (taskMeaning (.fan items) frame).exec (limited other overflow m) =
        (.ok (), (limited other overflow m).pushAll frame (Task.unfolded items)) :=
      Task.exec_unfold frame items _
    cases hfan
    rw [hother, hpush]
    refine .whole overflow' ?_
    rw [Machine.pushAll_eq]
    exact hs

/-- The ceiling that is passed by a run that costs `cost` and where `most` entries wait at the peak,
and what is charged by then. -/
inductive Passed (limits : Limits) (cost most : Nat) : Ceiling → Nat → Prop where
  | cost (hover : limits.commands < cost) :
    Passed limits cost most (.commandCost limits.commands) limits.commands
  | queue {spent : Nat} (hover : limits.queue < most) :
    Passed limits cost most (.queueOverflow limits.queue) spent

theorem Passed.mono {ceiling : Ceiling} {spent cost' n' : Nat}
    (p : Passed limits cost n ceiling spent) (hcost : cost ≤ cost') (hn : n ≤ n') :
    Passed limits cost' n' ceiling spent := by
  cases p with
  | cost hover => exact .cost (Nat.lt_of_lt_of_le hover hcost)
  | queue hover => exact .queue (Nat.lt_of_lt_of_le hover hn)

theorem Passed.not_within {ceiling : Ceiling} {spent : Nat} (p : Passed limits cost n ceiling spent) :
    ¬(cost ≤ limits.commands ∧ n ≤ limits.queue) := by
  cases p with
  | cost hover => omega
  | queue hover => omega

/-- Work that queues as many under other limits has the same peak there. -/
theorem peak_limited {w : Deed standard Host Unit} {overflow overflow' : Bool}
    (hx : w.exec m = (.ok (), m₁))
    (hx' : w.exec (limited other overflow m) = (.ok (), limited other overflow' m₁)) :
    (w.history (limited other overflow m)).peak = (w.history m).peak := by
  have hpeak := (Work.peak_history w m).2
  have hpeak' := (Work.peak_history w (limited other overflow m)).2
  rw [hx] at hpeak
  rw [hx'] at hpeak'
  exact hpeak'.trans hpeak.symm

/-- A turn that ends well under limits that cover it ends well under others, or fails with one of
their ceilings. `n` entries have waited since the flag was looked at. -/
theorem perform_limited (n : Nat) (hforks : other.forks = m.limits.forks)
    (hs : m.cost ≤ other.commands)
    (hp : Machine.perform taskMeaning (m.begin e rest) e = (none, m₂)) :
    (m₂.cost ≤ other.commands ∧ max n (m.turn taskMeaning e rest).peak ≤ other.queue ∧
      Machine.perform taskMeaning ((limited other (other.queue < n) m).begin e rest) e =
        (none, limited other false m₂)) ∨
    ∃ (ceiling : Ceiling) (m₃ : Rig) (j : Journal),
      Machine.perform taskMeaning ((limited other (other.queue < n) m).begin e rest) e =
        (some (.ofCeiling ceiling), m₃) ∧
      Passed other m₂.cost (max n (m.turn taskMeaning e rest).peak) ceiling m₃.cost ∧
      j.Before m₂.world.journal ∧ m₃.world.journal = j.hear e.frame.returns .failure := by
  obtain ⟨m₁, hx, -, rfl⟩ := Machine.perform_eq_none.mp hp
  have hparted := exec_limited e.action e.frame (other.queue < n) (m := m.begin e rest) hforks hs hx
  have hbegin : (limited other (other.queue < n) m).begin e rest =
      limited other (other.queue < n) (m.begin e rest) := rfl
  have hflag := Work.overflow_exec (taskMeaning e.action e.frame)
    (limited other (other.queue < n) (m.begin e rest))
  have hlimits := Work.limits_exec (taskMeaning e.action e.frame)
    (limited other (other.queue < n) (m.begin e rest))
  rw [hbegin]
  generalize hx' : (taskMeaning e.action e.frame).exec
    (limited other (other.queue < n) (m.begin e rest)) = result at hparted hflag hlimits
  cases hparted with
  | whole overflow hcost =>
    have hpeak : _ = (m.turn taskMeaning e rest).peak := peak_limited hx hx'
    have hover : overflow = decide (other.queue < max n (m.turn taskMeaning e rest).peak) := by
      have hraised : overflow = (decide (other.queue < n) || decide (other.queue < _)) := hflag
      rw [hraised, hpeak, ← Bool.decide_or]
      exact decide_eq_decide.mpr (by omega)
    rw [Machine.perform_of_ok hx', hover]
    by_cases hmost : other.queue < max n (m.turn taskMeaning e rest).peak
    · refine .inr ⟨.queueOverflow other.queue, (limited other true m₁).abort e.frame,
        m₁.world.journal, ?_, .queue hmost, .refl _, rfl⟩
      rw [decide_eq_true hmost]
      rfl
    · refine .inl ⟨hcost, Nat.le_of_not_lt hmost, ?_⟩
      rw [decide_eq_false hmost]
      rfl
  | @short m' hspent hover hbefore =>
    have hpassed : Passed other m₁.cost (max n (m.turn taskMeaning e rest).peak)
        (.commandCost other.commands) m'.cost := by
      rw [hspent]
      exact .cost hover
    exact .inr ⟨.commandCost other.commands, m'.abort e.frame, m'.world.journal,
      Machine.perform_of_error hx', hpassed, hbefore, rfl⟩

/-! ### The whole run -/

/-- A run that was cut short, of which `full` is the journal it would have left. -/
structure CutShort (limits : Limits) (cost most : Nat) (full : Journal) (h : RigHistory)
    (ending : Ending) (m : Rig) : Prop where
  reason : ∃ ceiling, ending = .aborted (.ofCeiling ceiling) ∧ Passed limits cost most ceiling m.cost
  shown : m.world.journal.shown <+: full.shown
  events : m.world.journal.events <+: full.events
  /-- Only the frame of the entry that failed hears what it would not have heard. -/
  heard : ∃ e before, h.performed.getLast? = some e ∧ before <+: full.heard ∧
    m.world.journal.heard = before ++ e.frame.returns.listeners.map (·, .failure)

/-- The most entries that ever wait in a run from `m`. -/
def mostWaiting (m : Rig) (h : RigHistory) : Nat := max m.pending h.peak

variable {full : Journal} {n' : Nat}

theorem CutShort.mono (s : CutShort other cost n full h ending m) (hn : n ≤ n') :
    CutShort other cost n' full h ending m := by
  obtain ⟨ceiling, hending, hpassed⟩ := s.reason
  exact ⟨⟨ceiling, hending, hpassed.mono (Nat.le_refl _) hn⟩, s.shown, s.events, s.heard⟩

/-- A run that is cut short after more turns is cut short. -/
theorem CutShort.after (s : CutShort other cost n full h ending m) (earlier : RigHistory) :
    CutShort other cost n full (earlier ++ h) ending m := by
  obtain ⟨e, before, hlast, hbefore, hheard⟩ := s.heard
  refine ⟨s.reason, s.shown, s.events, e, before, ?_, hbefore, hheard⟩
  rw [History.performed_append, List.getLast?_append, hlast]
  rfl

/-- The turn that fails ends the run. -/
theorem cutShort_turn {ceiling : Ceiling} {j : Journal}
    (hpassed : Passed other cost n ceiling m'.cost) (hj : j.Before full)
    (hjournal : m'.world.journal = j.hear e.frame.returns .failure) :
    CutShort other cost n full
      (m.turn taskMeaning e rest ++ [(.aborted (.ofCeiling ceiling), m')])
      (.aborted (.ofCeiling ceiling)) m' := by
  refine ⟨⟨ceiling, rfl, hpassed⟩, ?_, ?_, e, j.heard, ?_, hj.heard, ?_⟩
  · rw [hjournal, Journal.shown_hear]
    exact hj.shown
  · rw [hjournal, Journal.events_hear]
    exact hj.events
  · rw [Machine.performed_turn_append]
    rfl
  · rw [hjournal, Journal.heard_hear]

/-- How a run goes under other limits, where `n` entries have waited since the flag was looked at:
either they are wide enough, or it is cut short. -/
theorem course_limited (other : Limits) (hforks : other.forks = m.limits.forks)
    (c : Machine.Course taskMeaning m h ending m') (hending : ending = .finished cost deepest)
    (hs : m.cost ≤ other.commands) (ho : m.overflow = false)
    (hn : other.queue < n → ∃ e rest, m.queue.toList = e :: rest ∧ m.isLive e = true) :
    ∃ h' ending' m'',
      Machine.Course taskMeaning (limited other (other.queue < n) m) h' ending' m'' ∧
      (cost ≤ other.commands ∧ max n h.peak ≤ other.queue ∧ ending' = .finished cost deepest ∧
          m'' = { m' with limits := other } ∨
        CutShort other cost (max n h.peak) m'.world.journal h' ending' m'') := by
  induction c generalizing n with
  | @finished m hq =>
    have hcost := (Ending.finished.inj hending).1
    have hwithin : n ≤ other.queue := by
      refine Nat.le_of_not_lt fun hlt => ?_
      obtain ⟨e, rest, hcons, -⟩ := hn hlt
      rw [hq] at hcons
      cases hcons
    refine ⟨[], _, _, .finished hq, .inl ⟨hcost ▸ hs, Nat.max_le.mpr ⟨hwithin, Nat.zero_le _⟩,
      hending, ?_⟩⟩
    rw [limited, decide_eq_false (Nat.not_lt_of_le hwithin), ← ho]
  | @dropped m m' e rest h ending hq hl next ih =>
    -- the entry that raised the flag is alive, so the flag is not up
    have hwithin : ¬other.queue < n := by
      intro hlt
      obtain ⟨e', rest', hcons, hlive⟩ := hn hlt
      obtain ⟨rfl, rfl⟩ := List.cons.inj (hq.symm.trans hcons)
      rw [hl] at hlive
      cases hlive
    obtain ⟨h', ending', m'', c', hresult⟩ :=
      ih hforks hending hs ho (n := n) (fun hlt => absurd hlt hwithin)
    refine ⟨_, ending', m'', .dropped hq hl c', ?_⟩
    rcases hresult with hfinished | hcut
    · exact .inl hfinished
    · exact .inr (hcut.after [_])
  | @performed m m₂ m' e rest h ending hq hl hp next ih =>
    have hpeak : History.peak (m.turn taskMeaning e rest ++ h) = _ := History.peak_append _ h
    rw [hpeak]
    rcases perform_limited n hforks hs hp with
      ⟨hs₂, hmost, hp'⟩ | ⟨ceiling, m₃, j, hp', hpassed, hj, hjournal⟩
    · have hforks₂ := hforks.trans (congrArg Limits.forks (Machine.limits_perform hp)).symm
      obtain ⟨m₁, -, ho₂, rfl⟩ := Machine.perform_eq_none.mp hp
      obtain ⟨h', ending', m'', c', hresult⟩ :=
        ih hforks₂ hending hs₂ ho₂ (n := 0) (fun hlt => absurd hlt (Nat.not_lt_zero _))
      rw [decide_eq_false (Nat.not_lt_zero _)] at c'
      refine ⟨_, ending', m'', .performed hq hl hp' c', ?_⟩
      rcases hresult with ⟨hcost, hmost', hends⟩ | hcut
      · exact .inl ⟨hcost, by omega, hends⟩
      · exact .inr ((hcut.mono (by omega)).after _)
    · have hrest := before_course next
      have hcost : m₂.cost ≤ cost := (hending ▸ next).cost_eq ▸ hrest.cost
      exact ⟨_, _, m₃, .failed hq hl hp', .inr (cutShort_turn (hpassed.mono hcost (by omega))
        (hj.trans hrest.journal) hjournal)⟩
  | failed hq hl hp => cases hending

/-- A flag that is up when a live entry begins is still up when it is done. -/
theorem flag_down (c : Machine.Course taskMeaning m h (.finished cost deepest) m')
    (hq : m.queue.toList = e :: rest) (hl : m.isLive e = true) : m.overflow = false := by
  generalize hending : Ending.finished cost deepest = ending at c
  cases c with
  | finished hq' =>
    rw [hq] at hq'
    cases hq'
  | dropped hq' hl' next =>
    obtain ⟨rfl, rfl⟩ := List.cons.inj (hq.symm.trans hq')
    rw [hl] at hl'
    cases hl'
  | performed hq' hl' hp next =>
    obtain ⟨rfl, rfl⟩ := List.cons.inj (hq.symm.trans hq')
    obtain ⟨m₁, hx, ho, -⟩ := Machine.perform_eq_none.mp hp
    have hflag := Work.overflow_exec (taskMeaning e.action e.frame) (m.begin e rest)
    rw [hx, ho] at hflag
    exact (Bool.or_eq_false_iff.mp hflag.symm).1
  | failed hq' hl' hp => cases hending

/-- A submission that runs to its end under some limits, run under others that fork alike. It comes
to the same end exactly if its cost and the most entries that ever wait are within them; if not, it
is aborted at the first of them that it passes. -/
theorem runs_limited (commands forks queue : Nat) (world : Scene Host) (callback : Callback)
    (action : Action standard) (h : RigHistory) (cost deepest : Nat) (m : Rig)
    (hrun : (submitted ⟨commands, forks, queue⟩ world callback action).Runs taskMeaning h
      (.finished cost deepest) m)
    (commands' queue' : Nat) :
    ∃ h' ending m',
      (submitted ⟨commands', forks, queue'⟩ world callback action).Runs taskMeaning h' ending m' ∧
      if cost ≤ commands' ∧
          mostWaiting (submitted ⟨commands, forks, queue⟩ world callback action) h ≤ queue' then
        ending = .finished cost deepest ∧ m' = { m with limits := ⟨commands', forks, queue'⟩ }
      else
        CutShort ⟨commands', forks, queue'⟩ cost
          (mostWaiting (submitted ⟨commands, forks, queue⟩ world callback action) h)
          m.world.journal h' ending m' := by
  have c := Machine.runs_iff_course.mp hrun
  have hflag : (submitted ⟨commands, forks, queue⟩ world callback action).splice.overflow = false :=
    flag_down c rfl rfl
  obtain ⟨h', ending, m', c', hresult⟩ := course_limited ⟨commands', forks, queue'⟩ (n := 1)
    rfl c rfl (Nat.zero_le _) hflag (fun _ => ⟨_, [], rfl, rfl⟩)
  have hmost : mostWaiting (submitted ⟨commands, forks, queue⟩ world callback action) h =
      max 1 h.peak := rfl
  rw [hmost]
  refine ⟨h', ending, m', Machine.runs_iff_course.mpr c', ?_⟩
  rcases hresult with ⟨hcost, hwaiting, hends⟩ | hcut
  · rw [if_pos ⟨hcost, hwaiting⟩]
    exact hends
  · obtain ⟨ceiling, -, hpassed⟩ := hcut.reason
    rw [if_neg hpassed.not_within]
    exact hcut

theorem runs_limited_askTwice :
    (submitted {} answering .empty askTwice).Runs taskMeaning
        ((submitted {} answering .empty askTwice).splice.history taskMeaning 9) (.finished 3 1)
        ((submitted {} answering .empty askTwice).run taskMeaning 9).2 ∧
      ∃ h ending m,
        (submitted ⟨2, 65536, 65536⟩ answering .empty askTwice).Runs taskMeaning h ending m ∧
        CutShort ⟨2, 65536, 65536⟩ 3
          (mostWaiting (submitted {} answering .empty askTwice)
            ((submitted {} answering .empty askTwice).splice.history taskMeaning 9))
          ((submitted {} answering .empty askTwice).run taskMeaning 9).2.world.journal h ending m := by
  have hrun : (submitted {} answering .empty askTwice).Runs taskMeaning
      ((submitted {} answering .empty askTwice).splice.history taskMeaning 9) (.finished 3 1)
      ((submitted {} answering .empty askTwice).run taskMeaning 9).2 :=
    ⟨(nomatch ·), 9, rfl, rfl⟩
  obtain ⟨h, ending, m, hrun', hcut⟩ :=
    runs_limited 65536 65536 65536 answering .empty askTwice _ 3 1 _ hrun 2 65536
  rw [if_neg fun hwithin => absurd hwithin.1 (by decide)] at hcut
  exact ⟨hrun, h, ending, m, hrun', hcut⟩

end Trampoline.Command
