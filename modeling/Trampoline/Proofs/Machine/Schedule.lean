import Trampoline.Proofs.Machine.Folding
import Trampoline.Proofs.Machine.Stemming
import Trampoline.Script

/-! Scheduling items is queueing them all.

Where items are scheduled the machine holds the first and a fan-out for the others, and
where they are queued it holds them all; so the one queue unfolds to the other, and
both runs do the same (`Folded.agrees`). What waits in the second are entries of one
frame, one behind the other, and they are run item by item (`course_inTurn`). In the
first at most two tasks come from the items at any time (`stemming_history`).

A fan-out has the entry of an item made only in its own turn. That makes no difference
as long as the entry depends on the item alone (`Task.Makes`): it is stamped with the
generation that a live fan-out was stamped with. A factory that looks at the world can
tell the two apart, and so can an action that asks how many entries wait, of which the
first holds fewer: that is what it is for (`logs_and_gains_told_apart`). -/
namespace Trampoline

namespace Task

theorem length_batch_le {α : Type} (items : List α) : (batch items).length ≤ items.length := by
  match items with
  | [] => exact Nat.le_refl _
  | [_] => exact Nat.le_refl _
  | [_, _] => exact Nat.le_refl _
  | _ :: _ :: _ :: rest =>
    simp only [batch, List.length_cons, List.length_nil]
    omega

end Task

namespace Machine

variable {σ α : Type}

theorem pushAll_eq_stageAll (m : Machine σ α) (frame : Frame) (actions : List α) :
    m.pushAll frame actions =
      m.stageAll (frame.entries (m.generation frame.governor) actions) := by
  induction actions generalizing m with
  | nil => rfl
  | cons a actions ih => exact ih (m.push frame a)

/-- The queue with which a run begins after actions were queued that fit. -/
theorem splice_pushAll_of_fits (m : Machine σ α) (frame : Frame) (actions : List α)
    (h : m.pending + actions.length ≤ m.limits.queue) :
    (m.pushAll frame actions).splice = m.splice.without (m.staged.toList.reverse ++
      (frame.entries (m.generation frame.governor) actions ++ m.queue.toList)) := by
  have hlength : (frame.entries (m.generation frame.governor) actions).length = actions.length :=
    List.length_map ..
  apply splice_pushAll
  rw [pushAll_eq_stageAll, stageAll_of_fits m _ (hlength.symm ▸ h)]

variable [Audience σ]

/-- The queue after items were scheduled unfolds to the one after they were all queued. -/
theorem folded_schedule {make : Task.Factory σ α} {made : α → α}
    {mean : α → Frame → Work σ (Task α) Unit} {m : Machine σ (Task α)} {frame : Frame}
    {items : List α} (hmakes : Task.Makes make made items) (ho : m.overflow = false)
    (hfit : m.pending + items.length ≤ m.limits.queue)
    (hfew : (m.pushAll frame ((Task.batch items).map (Task.retold made))).splice.Roomy
      (Task.meaning make mean))
    (hmany : (m.pushAll frame (Task.acts made items)).splice.Roomy (Task.meaning make mean)) :
    ∃ q, (m.pushAll frame (Task.acts made items)).splice =
        (m.pushAll frame ((Task.batch items).map (Task.retold made))).splice.without q ∧
      Folded make made mean
        (m.pushAll frame ((Task.batch items).map (Task.retold made))).splice q := by
  have hlength := Task.length_batch_le items
  have hbatch := splice_pushAll_of_fits m frame ((Task.batch items).map (Task.retold made)) <| by
    rw [List.length_map]
    omega
  have hall := splice_pushAll_of_fits m frame (Task.acts made items) <| by
    rw [Task.acts, List.length_map]
    exact hfit
  generalize htasks : (Task.batch items).map (Task.retold made) = tasks at hfew hbatch ⊢
  have hwithout : (m.pushAll frame (Task.acts made items)).splice =
      (m.pushAll frame tasks).splice.without (m.staged.toList.reverse ++
        (frame.entries (m.generation frame.governor) (Task.acts made items) ++
          m.queue.toList)) := by
    rw [hall, hbatch]
    rfl
  refine ⟨_, hwithout, ?_, rfl, ?_, hfew, hwithout ▸ hmany⟩
  · rw [hbatch, ← htasks]
    exact (Unfolds.batch frame _ hmakes (.refl _)).append _
  · rw [hbatch]
    exact ho

/-- As long as neither an action nor the factory asks how many entries wait, the entries of the items
depend on the items alone and the queue limit is not passed, scheduling items and queueing them all
lead to the same run: the same actions in the same worlds, the same ending and the same machine in
the end, whatever fuel there is. What waited before is run first. Then the items are run one by one,
each followed by everything it leads to, up to the first that discards their frame; then comes what
waited behind. And if the items can be told from all else that is queued, at most two of the tasks
that wait at any time come from them. -/
theorem schedule_eq_queueAll (make : Task.Factory σ α) (mean : α → Frame → Work σ (Task α) Unit)
    (hmake : ∀ a frame, (make frame a).Blind) (hb : ∀ a frame, (mean a frame).Blind)
    (m : Machine σ (Task α)) (frame : Frame) (items : List α) (made : α → α)
    (hmakes : Task.Makes make made items) (hg : frame.governor < m.governors.size)
    (ho : m.overflow = false) (hfit : m.pending + items.length ≤ m.limits.queue)
    (hfew : ((Task.schedule make frame items).exec m).2.splice.Roomy (Task.meaning make mean))
    (hmany : ((Task.queueAll make frame items).exec m).2.splice.Roomy (Task.meaning make mean)) :
    (∀ fuel, ∃ fuel', Agrees (Task.meaning make mean)
      ((Task.schedule make frame items).exec m).2.splice
      ((Task.queueAll make frame items).exec m).2.splice fuel fuel') ∧
    (∀ fuel', ∃ fuel, Agrees (Task.meaning make mean)
      ((Task.schedule make frame items).exec m).2.splice
      ((Task.queueAll make frame items).exec m).2.splice fuel fuel') ∧
    (∀ ran ending m',
      (∃ h, ((Task.queueAll make frame items).exec m).2.Runs (Task.meaning make mean) h ending m' ∧
        h.performed = ran) ↔
      AndThen (Task.meaning make mean) frame.governor (m.splice.without m.staged.toList.reverse)
        (InTurn (Task.meaning make mean) frame (m.generation frame.governor) m.queue.toList
          (Task.acts made items))
        (Running (Task.meaning make mean) m.queue.toList) ran ending m') ∧
    ∀ own : α → Bool, (∀ a frame, (mean a frame).Keeps (sparing own m.limits) fun _ => True) →
      (∀ a frame, own a = false →
        (make frame a).Keeps (sparing own m.limits) fun e => e.action.stems own = false) →
      m.stemming own = [] →
      (((Task.schedule make frame items).exec m).2.stemming own).length ≤ 2 ∧
      ∀ fuel, ∀ x ∈ ((Task.schedule make frame items).exec m).2.splice.history
        (Task.meaning make mean) fuel, (x.2.stemming own).length ≤ 2 := by
  rw [Task.exec_schedule_of_makes hmakes] at hfew ⊢
  rw [Task.exec_queueAll_of_makes hmakes] at hmany ⊢
  obtain ⟨q, hmanyeq, hfolded⟩ := folded_schedule hmakes ho hfit hfew hmany
  refine ⟨fun fuel => ?_, fun fuel' => ?_, fun ran ending m' => ?_, fun own hown hother hnone => ?_⟩
  · rw [hmanyeq]
    exact hfolded.agrees hmake hb fuel
  · rw [hmanyeq]
    exact hfolded.agrees' hmake hb fuel'
  · have hfollowed : (m.pushAll frame (Task.acts made items)).splice =
        (m.splice.without m.staged.toList.reverse).followedBy
          (frame.entries (m.generation frame.governor) (Task.acts made items) ++
            m.queue.toList) := by
      apply splice_pushAll_of_fits
      rw [Task.acts, List.length_map]
      exact hfit
    rw [hfollowed] at hmany
    simp only [runs_iff_course, hfollowed]
    exact course_inTurn (m := m.splice.without m.staged.toList.reverse) (blind_meaning hmake hb)
      (Task.acts made items) hg hmany ran
  · have hshort : Short items
        ((m.pushAll frame ((Task.batch items).map (Task.retold made))).stemming own) := by
      rw [stemming_pushAll frame _ hnone]
      exact (short_batch made items).filter _
    refine ⟨hshort.length, fun fuel => stemming_history hown hother hmakes fuel ?_ rfl ?_⟩
    · exact limits_pushAll ..
    · rw [stemming_splice]
      exact hshort

/-- Small actions: one that discards its frame, and some that queue another one. -/
def tally : Nat → Frame → Work (Scene Unit) (Task Nat) Unit
  | 0, frame => Work.drop frame.governor
  | n + 1, frame => if n < 9 then Work.enqueue frame (.act (n + 11)) else Work.pay 1

/-- What is missing to nine. -/
def missing (n : Nat) : Nat := if n < 10 then 9 - n else n

def tallyEntry : Task.Factory (Scene Unit) Nat := fun frame n =>
  Work.entry frame (.act (missing n))

def tallyMachine : Machine (Scene Unit) (Task Nat) :=
  { limits := {}, world := ⟨{}, ()⟩, governors := #[⟨0, 0⟩] }

def tallyFrame : Frame := ⟨0, .one "caller", 0⟩

/-- Four items, of which the third discards the frame. -/
def tallyItems : List Nat := [8, 7, 9, 6]

def scheduled : Machine (Scene Unit) (Task Nat) :=
  ((Task.schedule tallyEntry tallyFrame tallyItems).exec tallyMachine).2

def queuedAll : Machine (Scene Unit) (Task Nat) :=
  ((Task.queueAll tallyEntry tallyFrame tallyItems).exec tallyMachine).2

theorem tally_schedule_eq_queueAll :
    (∀ a frame, (tallyEntry frame a).Blind) ∧ (∀ a frame, (tally a frame).Blind) ∧
      Task.Makes tallyEntry missing tallyItems ∧
      tallyFrame.governor < tallyMachine.governors.size ∧ tallyMachine.overflow = false ∧
      tallyMachine.pending + tallyItems.length ≤ tallyMachine.limits.queue ∧
      scheduled.splice.Roomy (Task.meaning tallyEntry tally) ∧
      queuedAll.splice.Roomy (Task.meaning tallyEntry tally) ∧
      (∃ fuel', Agrees (Task.meaning tallyEntry tally) scheduled.splice queuedAll.splice 8 fuel') ∧
      ∀ fuel, ∀ x ∈ scheduled.splice.history (Task.meaning tallyEntry tally) fuel,
        (x.2.stemming fun n => decide (n < 10)).length ≤ 2 := by
  have hb : ∀ a frame, (tally a frame).Blind := by
    intro a frame
    unfold tally
    split
    · trivial
    · split
      · exact Work.blind_enqueue frame _
      · exact fun result => by cases result <;> trivial
  have hfew : scheduled.splice.Roomy (Task.meaning tallyEntry tally) := by
    have hends : drain (Task.meaning tallyEntry tally) 8 scheduled.splice =
      (.finished 2 0, (scheduled.run (Task.meaning tallyEntry tally) 8).2) := rfl
    exact (course_of_drain hends (by decide)).roomy (by decide)
  have hmany : queuedAll.splice.Roomy (Task.meaning tallyEntry tally) := by
    have hends : drain (Task.meaning tallyEntry tally) 8 queuedAll.splice =
      (.finished 2 0, (queuedAll.run (Task.meaning tallyEntry tally) 8).2) := rfl
    exact (course_of_drain hends (by decide)).roomy (by decide)
  have hown : ∀ a frame, (tally a frame).Keeps
      (sparing (fun n => decide (n < 10)) tallyMachine.limits) fun _ => True := by
    intro a frame
    unfold tally
    split
    · trivial
    · split
      · exact Work.keeps_enqueue (by simp [sparing, Task.stems, Task.items])
      · exact Work.keeps_pay trivial
  have hother : ∀ (a : Nat) (frame : Frame), decide (a < 10) = false →
      (tallyEntry frame a).Keeps (sparing (fun n => decide (n < 10)) tallyMachine.limits)
        fun e => e.action.stems (fun n => decide (n < 10)) = false := by
    intro a frame ha stamp
    have hmissing : missing a = a := if_neg (of_decide_eq_false ha)
    simp [Work.Keeps, Task.stems, Task.items, hmissing, ha]
  have hmakes : Task.Makes tallyEntry missing tallyItems := fun _ _ _ => rfl
  obtain ⟨hagrees, -, -, hstems⟩ := schedule_eq_queueAll tallyEntry tally (fun _ _ _ => trivial) hb
    tallyMachine tallyFrame tallyItems missing hmakes (by decide) rfl (by decide) hfew hmany
  exact ⟨fun _ _ _ => trivial, hb, hmakes, by decide, rfl, by decide, hfew, hmany, hagrees 8,
    (hstems _ hown hother rfl).2⟩

/-! ### What tells the two apart -/

/-- Three scripts that each note how many entries wait. -/
def logs : List Script.Act := ["a", "b", "c"].map fun text => .script [.log text]

def logMachine : Machine (Scene Host) (Task Script.Act) :=
  { limits := {}, world := ⟨{}, {}⟩, governors := #[⟨0, 0⟩] }

/-- An action that adds to the score. -/
def gain (n : Nat) (_ : Frame) : Work (Scene Nat) (Task Nat) Unit :=
  Work.change fun s => { s with host := s.host + n }

/-- Makes an entry that adds what the score is by then. -/
def doubling : Task.Factory (Scene Nat) Nat := fun frame _ =>
  .observe fun s => Work.entry frame (.act s.host)

def scoreMachine : Machine (Scene Nat) (Task Nat) :=
  { limits := {}, world := ⟨{}, 1⟩, governors := #[⟨0, 0⟩] }

theorem logs_and_gains_told_apart :
    let frame : Frame := ⟨0, .one "root", 0⟩
    let meaning := Task.meaning .plain Script.meaning
    let few := ((Task.schedule .plain frame logs).exec logMachine).2.run meaning 9
    let many := ((Task.queueAll .plain frame logs).exec logMachine).2.run meaning 9
    let late := ((Task.schedule doubling frame [0, 0, 0]).exec scoreMachine).2.run
      (Task.meaning doubling gain) 9
    let early := ((Task.queueAll doubling frame [0, 0, 0]).exec scoreMachine).2.run
      (Task.meaning doubling gain) 9
    (few.1 = .finished 0 0 ∧ many.1 = .finished 0 0 ∧
      few.2.world.journal.happenings.getLast? =
        some (.note "log a depth=0 gen=0 pending=1 cost=0") ∧
      many.2.world.journal.happenings.getLast? =
        some (.note "log a depth=0 gen=0 pending=2 cost=0")) ∧
    (∀ frame item m, (doubling frame item).exec m = (.ok (m.entry frame (.act m.world.host)), m)) ∧
      late.1 = .finished 0 0 ∧ early.1 = .finished 0 0 ∧
      late.2.world.host = 8 ∧ early.2.world.host = 4 :=
  ⟨⟨rfl, rfl, rfl, rfl⟩, fun _ _ _ => rfl, rfl, rfl, rfl, rfl⟩

end Machine

end Trampoline
