import Trampoline.Proofs.Machine.History

/-! What work may do, and what then holds all along.

A contract says which worlds there may be, which actions may be queued and with
which faults a run may be aborted. `Work.Keeps` reads off a tree of operations that
it keeps a contract; it composes like the work itself (`Keeps.bind`). If all that is
queued stands for work that keeps the contract, every state of a run does
(`observes_history`), and a run ends with a fault of the contract or at one of the
two ceilings. -/
namespace Trampoline

structure Contract (σ α : Type) where
  limits : Limits
  fault : Fault → Prop
  action : α → Prop
  world : σ → Prop

variable {σ α β γ : Type} {c : Contract σ α} {R : β → Prop}

namespace Contract

/-- The fault of a spent budget. -/
def spent (c : Contract σ α) : Fault := .ofCeiling (.commandCost c.limits.commands)

/-- The fault of a queue that got too long. -/
def overflown (c : Contract σ α) : Fault := .ofCeiling (.queueOverflow c.limits.queue)

end Contract

namespace Work

/-- Work that keeps to a contract, and whose result, if it comes to one, has `R`. The charges may
be refused. -/
def Keeps (c : Contract σ α) (R : β → Prop) : Work σ α β → Prop
  | .done b => R b
  | .abort fault => c.fault fault
  | .charge _ next => (next (.ok ())).Keeps c R ∧ (next (.error c.spent)).Keeps c R
  | .stage e next => c.action e.action ∧ (next ()).Keeps c R
  | .discard _ next => (next ()).Keeps c R
  | .govern _ next => ∀ g, (next g).Keeps c R
  | .update change next => (∀ s, c.world s → c.world (change s)) ∧ (next ()).Keeps c R
  | .observe next => ∀ s, c.world s → (next s).Keeps c R
  | .generation _ next => ∀ n, (next n).Keeps c R
  | .depth next => ∀ n, (next n).Keeps c R
  | .cost next => ∀ n, (next n).Keeps c R
  | .forkLimit next => ∀ n, (next n).Keeps c R
  | .pending next => ∀ n, (next n).Keeps c R

/-- Work after work. -/
theorem Keeps.bind {w : Work σ α β} {f : β → Work σ α γ} {S : γ → Prop} (hw : w.Keeps c R)
    (hf : ∀ b, R b → (f b).Keeps c S) : (w >>= f).Keeps c S := by
  change (w.bind f).Keeps c S
  induction w with
  | done b => exact hf b hw
  | abort fault => exact hw
  | charge units next ih => exact ⟨ih _ hw.1, ih _ hw.2⟩
  | stage e next ih => exact ⟨hw.1, ih _ hw.2⟩
  | discard g next ih => exact ih _ hw
  | govern d next ih => exact fun g => ih g (hw g)
  | update change next ih => exact ⟨hw.1, ih _ hw.2⟩
  | observe next ih => exact fun s hs => ih s (hw s hs)
  | generation g next ih => exact fun n => ih n (hw n)
  | depth next ih => exact fun n => ih n (hw n)
  | cost next ih => exact fun n => ih n (hw n)
  | forkLimit next ih => exact fun n => ih n (hw n)
  | pending next ih => exact fun n => ih n (hw n)

theorem Keeps.ensuring {w : Work σ α β} {last : σ → σ} (hw : w.Keeps c R)
    (hlast : ∀ s, c.world s → c.world (last s)) : (w.ensuring last).Keeps c R := by
  induction w with
  | done b => exact ⟨hlast, hw⟩
  | abort fault => exact ⟨hlast, hw⟩
  | charge units next ih => exact ⟨ih _ hw.1, ih _ hw.2⟩
  | stage e next ih => exact ⟨hw.1, ih _ hw.2⟩
  | discard g next ih => exact ih _ hw
  | govern d next ih => exact fun g => ih g (hw g)
  | update change next ih => exact ⟨hw.1, ih _ hw.2⟩
  | observe next ih => exact fun s hs => ih s (hw s hs)
  | generation g next ih => exact fun n => ih n (hw n)
  | depth next ih => exact fun n => ih n (hw n)
  | cost next ih => exact fun n => ih n (hw n)
  | forkLimit next ih => exact fun n => ih n (hw n)
  | pending next ih => exact fun n => ih n (hw n)

theorem keeps_enqueue {frame : Frame} {action : α} (h : c.action action) :
    (enqueue frame action : Work σ α Unit).Keeps c fun _ => True := fun _ => ⟨h, trivial⟩

theorem keeps_change {change : σ → σ} (h : ∀ s, c.world s → c.world (change s)) :
    (Work.change change : Work σ α Unit).Keeps c fun _ => True := ⟨h, trivial⟩

/-- A step on the world whose answer may depend on it. -/
theorem keeps_act {f : σ → β × σ} (h : ∀ s, c.world s → c.world (f s).2 ∧ R (f s).1) :
    (act f : Work σ α β).Keeps c R :=
  fun s hs => ⟨fun _ _ => (h s hs).1, (h s hs).2⟩

/-- Paying keeps a contract that allows a spent budget. -/
theorem keeps_pay {units : Nat} (h : c.fault c.spent) :
    (pay units : Work σ α Unit).Keeps c fun _ => True := ⟨trivial, h⟩

theorem keeps_forM {ι : Type} {f : ι → Work σ α Unit} {as : List ι}
    (h : ∀ a ∈ as, (f a).Keeps c fun _ => True) : (as.forM f).Keeps c fun _ => True := by
  induction as with
  | nil => exact trivial
  | cons a as ih =>
    obtain ⟨hfirst, hrest⟩ := List.forall_mem_cons.mp h
    exact hfirst.bind fun _ _ => ih hrest

end Work

namespace Machine

variable {m m₁ m' : Machine σ α} {e : Entry α} {rest : List (Entry α)}

/-- A machine in a world of the contract, where only actions of the contract wait. -/
structure Observes (c : Contract σ α) (m : Machine σ α) : Prop where
  limits : m.limits = c.limits
  world : c.world m.world
  queue : ∀ e ∈ m.queue.toList, c.action e.action
  staged : ∀ e ∈ m.staged.toList, c.action e.action

/-- Only the limits, the world and what waits matter. -/
theorem Observes.of_eq (h : m.Observes c) (hlimits : m'.limits = m.limits)
    (hworld : m'.world = m.world) (hqueue : m'.queue = m.queue) (hstaged : m'.staged = m.staged) :
    m'.Observes c :=
  ⟨hlimits.trans h.limits, hworld ▸ h.world, hqueue ▸ h.queue, hstaged ▸ h.staged⟩

theorem Observes.stage (h : m.Observes c) (ha : c.action e.action) : (m.stage e).Observes c :=
  ⟨h.limits, h.world, h.queue, List.forall_mem_cons.mpr ⟨ha, h.staged⟩⟩

theorem Observes.push (h : m.Observes c) (frame : Frame) {action : α} (ha : c.action action) :
    (m.push frame action).Observes c :=
  h.stage (e := m.entry frame action) ha

theorem Observes.splice (h : m.Observes c) : m.splice.Observes c := by
  refine ⟨h.limits, h.world, fun e he => ?_, fun _ he => absurd he List.not_mem_nil⟩
  simp only [Machine.splice, Backlog.toList_splice, List.mem_append, List.mem_reverse] at he
  exact he.elim (h.staged e) (h.queue e)

theorem Observes.without (h : m.Observes c) (hq : m.queue.toList = e :: rest) :
    (m.without rest).Observes c :=
  ⟨h.limits, h.world, fun e' he' => h.queue e' (hq ▸ List.mem_cons_of_mem _ he'), h.staged⟩

/-- What every operation of work that keeps the contract leaves true. -/
structure KeptBy (c : Contract σ α) (P : Machine σ α → Prop) : Prop where
  limits : ∀ m, P m → m.limits = c.limits
  world : ∀ m, P m → c.world m.world
  charge : ∀ m units, P m → P (m.charge units).2
  stage : ∀ m e, c.action e.action → P m → P (m.stage e)
  discard : ∀ m g, P m → P (m.discard g)
  govern : ∀ m depth, P m → P (m.govern depth).2
  change : ∀ (m : Machine σ α) world, c.world world → P m → P { m with world }

/-- Work that keeps the contract leaves it true at every operation, and comes to what it should. -/
theorem KeptBy.work {P : Machine σ α → Prop} (hP : KeptBy c P) {w : Work σ α β} (hw : w.Keeps c R)
    (hm : P m) :
    (∀ x ∈ w.history m, P x.2) ∧ P (w.exec m).2 ∧
      match (w.exec m).1 with
      | .ok b => R b
      | .error fault => c.fault fault := by
  have hcons {x : Mark α × Machine σ α} {h : History σ α} {Q : Prop} (hx : P x.2)
      (hrest : (∀ x ∈ h, P x.2) ∧ Q) : (∀ x' ∈ x :: h, P x'.2) ∧ Q :=
    ⟨List.forall_mem_cons.mpr ⟨hx, hrest.1⟩, hrest.2⟩
  induction w generalizing m with
  | done b => exact ⟨fun _ hx => absurd hx List.not_mem_nil, hm, hw⟩
  | abort fault => exact ⟨fun _ hx => absurd hx List.not_mem_nil, hm, hw⟩
  | charge units next ih =>
    have hcharged := hP.charge m units hm
    have hnext : (next (m.charge units).1).Keeps c R := by
      rw [Machine.charge]
      split
      · exact hw.1
      · rw [hP.limits m hm]
        exact hw.2
    exact hcons hcharged (ih _ hnext hcharged)
  | stage e next ih =>
    have hstaged := hP.stage m e hw.1 hm
    exact hcons hstaged (ih _ hw.2 hstaged)
  | discard g next ih =>
    have hdiscarded := hP.discard m g hm
    exact hcons hdiscarded (ih _ hw hdiscarded)
  | govern d next ih =>
    have hgoverned := hP.govern m d hm
    exact hcons hgoverned (ih _ (hw _) hgoverned)
  | update change next ih =>
    have hchanged := hP.change m _ (hw.1 _ (hP.world m hm)) hm
    exact hcons hchanged (ih _ hw.2 hchanged)
  | observe next ih => exact ih _ (hw _ (hP.world m hm)) hm
  | generation g next ih => exact ih _ (hw _) hm
  | depth next ih => exact ih _ (hw _) hm
  | cost next ih => exact ih _ (hw _) hm
  | forkLimit next ih => exact ih _ (hw _) hm
  | pending next ih => exact ih _ (hw _) hm

theorem keptBy_observes (c : Contract σ α) : KeptBy c (Observes c) where
  limits _ h := h.limits
  world _ h := h.world
  charge _ _ h := h.of_eq rfl rfl rfl rfl
  stage _ _ ha h := h.stage ha
  discard _ _ h := h.of_eq rfl rfl rfl rfl
  govern _ _ h := h.of_eq rfl rfl rfl rfl
  change _ _ hworld h := ⟨h.limits, hworld, h.queue, h.staged⟩

variable [Audience σ] {mean : α → Frame → Work σ α Unit}

/-- A contract that everything it allows to be queued keeps in its turn. -/
structure Upheld (c : Contract σ α) (mean : α → Frame → Work σ α Unit) : Prop where
  keeps : ∀ action frame, c.action action → (mean action frame).Keeps c fun _ => True
  hear : ∀ callback outcome s, c.world s → c.world (Audience.hear callback outcome s)

theorem Observes.abort (hc : Upheld c mean) (h : m.Observes c) (frame : Frame) :
    (m.abort frame).Observes c :=
  ⟨h.limits, hc.hear _ _ _ h.world, fun _ he => absurd he List.not_mem_nil,
    fun _ he => absurd he List.not_mem_nil⟩

/-- The turn of an entry that the contract allows. -/
theorem Observes.perform (hc : Upheld c mean) (h : m.Observes c) (ha : c.action e.action) :
    (Machine.perform mean m e).2.Observes c ∧
      ∀ fault, (Machine.perform mean m e).1 = some fault → c.fault fault ∨ fault = c.overflown := by
  have hwork := ((keptBy_observes c).work (hc.keeps e.action e.frame ha) h).2
  match hx : (mean e.action e.frame).exec m with
  | (.error fault, m₁) =>
    rw [hx] at hwork
    rw [perform_of_error hx]
    exact ⟨hwork.1.abort hc e.frame, fun _ hf => .inl (Option.some.inj hf ▸ hwork.2)⟩
  | (.ok (), m₁) =>
    rw [hx] at hwork
    rw [perform_of_ok hx]
    split
    · refine ⟨hwork.1.abort hc e.frame, fun _ hf => .inr ?_⟩
      rw [← Option.some.inj hf, hwork.1.limits]
      rfl
    · exact ⟨hwork.1.splice, fun _ hf => nomatch hf⟩

/-- The contract holds at every moment of a run: wherever the run stands, for every entry that is
performed, and for the fault it is aborted with. -/
theorem observes_history (hc : Upheld c mean) (fuel : Nat) (h : m.Observes c) :
    (∀ x ∈ m.history mean fuel, x.2.Observes c) ∧
      (∀ e ∈ (m.history mean fuel).performed, c.action e.action) ∧
      (drain mean fuel m).2.Observes c ∧
      ∀ fault, (drain mean fuel m).1 = .aborted fault → c.fault fault ∨ fault = c.overflown := by
  have hnone {m : Machine σ α} (h : m.Observes c) {ending : Ending}
      (hne : ∀ fault, ending ≠ .aborted fault) :
      (∀ x ∈ ([] : History σ α), x.2.Observes c) ∧
        (∀ e ∈ History.performed ([] : History σ α), c.action e.action) ∧ m.Observes c ∧
        ∀ fault, ending = .aborted fault → c.fault fault ∨ fault = c.overflown :=
    ⟨fun _ hx => absurd hx List.not_mem_nil, fun _ he => absurd he List.not_mem_nil, h,
      fun fault hf => absurd hf (hne fault)⟩
  induction fuel generalizing m with
  | zero =>
    cases hq : m.queue.toList with
    | nil =>
      rw [drain_of_nil hq]
      exact hnone h fun _ hf => nomatch hf
    | cons e rest =>
      rw [drain_zero hq]
      exact hnone h fun _ hf => nomatch hf
  | succ fuel ih =>
    cases hq : m.queue.toList with
    | nil =>
      rw [history_of_nil hq, drain_of_nil hq]
      exact hnone h fun _ hf => nomatch hf
    | cons e rest =>
      have hwithout := h.without hq
      have ha := h.queue e (hq ▸ List.mem_cons_self)
      cases hl : m.isLive e with
      | false =>
        rw [history_of_dead hq hl, drain_of_dead hq hl]
        obtain ⟨hall, hperformed, hlast⟩ := ih hwithout
        exact ⟨List.forall_mem_cons.mpr ⟨hwithout, hall⟩, hperformed, hlast⟩
      | true =>
        have hbegin : (m.begin e rest).Observes c := hwithout.of_eq rfl rfl rfl rfl
        have hturn : ∀ x ∈ m.turn mean e rest, x.2.Observes c :=
          List.forall_mem_cons.mpr
            ⟨hbegin, ((keptBy_observes c).work (hc.keeps e.action e.frame ha) hbegin).1⟩
        have hperform := hbegin.perform hc ha
        rw [history_of_live hq hl, drain_of_live hq hl, performed_turn_append]
        match hp : Machine.perform mean (m.begin e rest) e with
        | (some fault, m₁) =>
          rw [hp] at hperform
          refine ⟨fun x hx => ?_, fun e' he' => ?_, hperform.1, fun fault' hf => ?_⟩
          · rcases List.mem_append.mp hx with hx | hx
            · exact hturn x hx
            · exact List.mem_singleton.mp hx ▸ hperform.1
          · exact List.mem_singleton.mp he' ▸ ha
          · cases hf
            exact hperform.2 fault rfl
        | (none, m₁) =>
          rw [hp] at hperform
          obtain ⟨hall, hperformed, hlast⟩ := ih hperform.1
          refine ⟨fun x hx => ?_, List.forall_mem_cons.mpr ⟨ha, hperformed⟩, hlast⟩
          rcases List.mem_append.mp hx with hx | hx
          · exact hturn x hx
          · exact hall x hx

end Machine

end Trampoline
