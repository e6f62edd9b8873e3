import Mathlib.Data.List.DropRight
import Trampoline.Settings

/-! A recorder holds exactly the newest records.

What a recorder is asked to do, each request with its time, is a `History`. What is recorded of it
is said without a buffer (`History.recorded`): each request that tells an event while the recorder
is on, with its time and the number of runs begun so far. One request keeps `Holds`, which ties a
recorder to its history; so after every history the buffer holds the end of what was recorded since
it was last emptied, and the numbers of its records are places in all that was ever recorded
(`holds_newest`). -/
namespace Trampoline.Trace

/-- What a recorder can be asked. Commands, results, calls and errors are told as events. -/
inductive Request where
  | start
  | finish (success : Bool) (cost : Nat)
  | tell (event : Event)
  | switch (on : Bool)
  | format (json : Bool)
  | clear
  deriving DecidableEq, Repr

namespace Request

/-- The event that is told. -/
def event? : Request → Option Event
  | start => some .runStart
  | finish success cost => some (.runEnd success cost)
  | tell event => some event
  | switch _ | format _ | clear => none

def switch? : Request → Option Bool
  | switch on => some on
  | _ => none

theorem switch?_of_event? {q : Request} {event : Event} (h : q.event? = some event) :
    q.switch? = none := by
  cases q with
  | switch on => cases h
  | _ => rfl

end Request

/-- Requests with their times, in order. -/
abbrev History := List (Nat × Request)

namespace Recorder

def serve (r : Recorder) : Nat × Request → Recorder
  | (now, .start) => r.start now
  | (now, .finish success cost) => r.finish now success cost
  | (now, .tell event) => r.record now event
  | (_, .switch on) => { r with enabled := on }
  | (_, .format json) => { r with json }
  | (_, .clear) => r.clear

def follow (r : Recorder) (h : History) : Recorder := h.foldl serve r

theorem follow_concat (r : Recorder) (h : History) (x : Nat × Request) :
    r.follow (h ++ [x]) = (r.follow h).serve x := List.foldl_concat ..

end Recorder

/-! ### What a history records -/

/-- An event, with the run it belongs to and its time. -/
structure Stamped where
  run : Nat
  timestamp : Nat
  event : Event
  deriving DecidableEq, Repr

/-- A record without its number. -/
def Record.stamped (r : Record) : Stamped := ⟨r.run, r.timestamp, r.event⟩

namespace History

variable (h : History) (on : Bool) (x : Nat × Request)

/-- How many runs were begun, recorded or not. -/
def starts : Nat := h.countP fun x => x.2 == .start

/-- Whether a recorder that was `on` at first still is: the last switching tells. -/
def isOn : Bool := (h.filterMap fun x => x.2.switch?).getLastD on

/-- What is recorded of a request after the history. -/
def stamp : Option Stamped :=
  if h.isOn on then x.2.event?.map fun event => ⟨starts (h ++ [x]), x.1, event⟩ else none

/-- What is recorded from one place in the history on. -/
def recordedFrom (first : Nat) : List Stamped :=
  (List.range' first (h.length - first)).filterMap fun i => h[i]?.bind (stamp (h.take i) on)

/-- All that is ever recorded. -/
def recorded : List Stamped := h.recordedFrom on 0

/-- The place behind the last clearing. -/
def cleared : Nat := (h.rdropWhile fun x => x.2 != .clear).length

/-- What is recorded since the last clearing. -/
def recordedSince : List Stamped := h.recordedFrom on h.cleared

variable {h}

theorem starts_concat : starts (h ++ [x]) = h.starts + if x.2 = .start then 1 else 0 := by
  simp [starts, List.countP_append, List.countP_singleton]

theorem isOn_concat : isOn (h ++ [x]) on = x.2.switch?.getD (h.isOn on) := by
  rw [isOn, List.filterMap_append]
  cases hx : x.2.switch? <;> simp [hx, isOn]

theorem stamp_of_silent (hx : x.2.event? = none) : h.stamp on x = none := by
  rw [stamp, hx]
  exact ite_self _

theorem cleared_le : h.cleared ≤ h.length := (List.rdropWhile_prefix _ h).length_le

theorem cleared_concat :
    cleared (h ++ [x]) = if x.2 = .clear then h.length + 1 else h.cleared := by
  rw [cleared, List.rdropWhile_concat]
  by_cases hx : x.2 = .clear <;> simp [hx, cleared]

/-- One more request, and what is recorded of it. -/
theorem recordedFrom_concat {first : Nat} (hfirst : first ≤ h.length) :
    recordedFrom (h ++ [x]) on first = h.recordedFrom on first ++ (h.stamp on x).toList := by
  have hcount : (h ++ [x]).length - first = (h.length - first) + 1 := by
    rw [List.length_append, List.length_singleton]
    omega
  have hlast : first + 1 * (h.length - first) = h.length := by omega
  rw [recordedFrom, hcount, List.range'_concat, List.filterMap_append, hlast]
  congr 1
  · refine List.filterMap_congr fun i hi => ?_
    have hi : i < h.length := by
      have := (List.mem_range'_1.mp hi).2
      omega
    rw [List.getElem?_append_left hi, List.take_append_of_le_length hi.le]
  · simp only [List.filterMap_cons, List.filterMap_nil, List.getElem?_concat_length,
      List.take_left, Option.bind_some]
    cases h.stamp on x <;> rfl

theorem recorded_concat : recorded (h ++ [x]) on = h.recorded on ++ (h.stamp on x).toList :=
  recordedFrom_concat on x (Nat.zero_le _)

theorem recordedSince_clear (now : Nat) : recordedSince (h ++ [(now, .clear)]) on = [] := by
  rw [recordedSince, cleared_concat, if_pos rfl, recordedFrom, List.length_append,
    List.length_singleton, Nat.sub_self]
  rfl

theorem recordedSince_concat (hx : x.2 ≠ .clear) :
    recordedSince (h ++ [x]) on = h.recordedSince on ++ (h.stamp on x).toList := by
  rw [recordedSince, cleared_concat, if_neg hx, recordedFrom_concat on x cleared_le, recordedSince]

/-- What is recorded later comes behind. -/
theorem recorded_isPrefix (h later : History) : h.recorded on <+: recorded (h ++ later) on := by
  induction later using List.reverseRecOn with
  | nil => exact ⟨[], by rw [List.append_nil, List.append_nil]⟩
  | append_singleton later x ih =>
    rw [← List.append_assoc, recorded_concat]
    exact ih.trans (List.prefix_append _ _)

/-- The run of an event is told by the starts up to it. -/
theorem run_eq_starts {i : Nat} {s : Stamped} (hs : h[i]?.bind (stamp (h.take i) on) = some s) :
    s.run = starts (h.take (i + 1)) := by
  obtain ⟨x, hx, hs⟩ := Option.bind_eq_some_iff.mp hs
  rw [stamp, Option.ite_none_right_eq_some, Option.map_eq_some_iff] at hs
  obtain ⟨-, event, -, rfl⟩ := hs
  rw [List.take_add_one, hx]
  rfl

/-- No run is gone back to. -/
theorem runs_recordedFrom (h : History) (first : Nat) :
    (h.recordedFrom on first).Pairwise (·.run ≤ ·.run) := by
  refine List.Pairwise.filterMap _ (fun i j hij s hs s' hs' => ?_) List.pairwise_lt_range'
  rw [run_eq_starts on hs, run_eq_starts on hs']
  exact (List.take_sublist_take_left (Nat.succ_le_succ hij.le)).countP_le

theorem run_le_starts {s : Stamped} (hs : s ∈ h.recorded on) : s.run ≤ h.starts := by
  obtain ⟨i, -, hs⟩ := List.mem_filterMap.mp hs
  rw [run_eq_starts on hs]
  exact (List.take_sublist _ _).countP_le

theorem length_recorded_le (h : History) : (h.recorded on).length ≤ h.length := by
  refine (List.length_filterMap_le _ _).trans ?_
  rw [List.length_range', Nat.sub_zero]

end History

/-! ### Parts of lists -/

section
variable {α : Type}

theorem getElem?_of_isPrefix {l l' : List α} (hfront : l <+: l') {i : Nat} {a : α}
    (h : l[i]? = some a) : l'[i]? = some a := by
  obtain ⟨later, rfl⟩ := hfront
  rw [List.getElem?_append_left (List.getElem?_eq_some_iff.mp h).1, h]

theorem length_rtake (l : List α) (n : Nat) : (l.rtake n).length = min n l.length := by
  rw [List.rtake, List.length_drop]
  omega

theorem rtake_rtake (l : List α) (m n : Nat) : (l.rtake m).rtake n = l.rtake (min n m) := by
  rw [List.rtake_eq_reverse_take_reverse, List.rtake_eq_reverse_take_reverse, List.reverse_reverse,
    List.take_take, List.rtake_eq_reverse_take_reverse]

theorem rtake_min_length (l : List α) (n : Nat) : l.rtake (min n l.length) = l.rtake n := by
  rw [List.rtake, List.rtake]
  congr 1
  omega

/-- The part that was left off stays off. -/
theorem rtake_concat (l : List α) (m n : Nat) (a : α) :
    (l.rtake m ++ [a]).rtake n = (l ++ [a]).rtake (min n (m + 1)) := by
  rw [← List.rtake_concat_succ, rtake_rtake]

theorem map_rtake {β : Type} (f : α → β) (l : List α) (n : Nat) :
    (l.rtake n).map f = (l.map f).rtake n := by
  rw [List.rtake, List.rtake, List.map_drop, List.length_map]

theorem rtake_suffix (l : List α) (n : Nat) : l.rtake n <:+ l := List.drop_suffix _ _

end

/-! ### One request -/

/-- The oldest records are dropped that no longer fit. -/
theorem Buffer.records_push_eq (b : Buffer) (run timestamp : Nat) (event : Event) :
    (b.push run timestamp event).2.records =
      (b.records ++ [(⟨b.next, run, timestamp, event⟩ : Record)]).rtake b.capacity := by
  rw [records_push, List.rtake, List.length_append, List.length_singleton]

namespace Recorder

/-- What a recorder holds after a history that found it empty, `on` or not, and with `room` for so
many records. -/
structure Holds (on : Bool) (room : Nat) (h : History) (r : Recorder) : Prop where
  enabled : r.enabled = h.isOn on
  run : r.run = h.starts
  capacity : r.buffer.capacity = room
  next : r.buffer.next = (h.recorded on).length
  stamped : r.buffer.records.map Record.stamped = (h.recordedSince on).rtake room
  ids : r.buffer.records.map (·.id) = (List.range r.buffer.next).rtake r.buffer.records.length
  places : ∀ record ∈ r.buffer.records, (h.recorded on)[record.id]? = some record.stamped

namespace Holds

variable {on : Bool} {room : Nat} {h : History} {r : Recorder} {x : Nat × Request}

/-- Nothing is held, and nothing was recorded since the last clearing. -/
theorem of_empty (henabled : r.enabled = h.isOn on) (hrun : r.run = h.starts)
    (hcapacity : r.buffer.capacity = room) (hnext : r.buffer.next = (h.recorded on).length)
    (hrecords : r.buffer.records = []) (hsince : h.recordedSince on = []) : r.Holds on room h := by
  refine ⟨henabled, hrun, hcapacity, hnext, ?_, ?_, ?_⟩ <;> rw [hrecords]
  · rw [hsince]; exact (List.rtake_nil room).symm
  · exact (List.rtake_zero _).symm
  · exact fun _ hrecord => absurd hrecord List.not_mem_nil

/-- A request that stores nothing leaves the records as they are, unless it clears them. -/
theorem unrecorded (hr : r.Holds on room h) (hstamp : h.stamp on x = none) (hclear : x.2 ≠ .clear)
    {r' : Recorder} (henabled : r'.enabled = History.isOn (h ++ [x]) on)
    (hrun : r'.run = History.starts (h ++ [x])) (hbuffer : r'.buffer = r.buffer) :
    r'.Holds on room (h ++ [x]) := by
  have hrecorded : History.recorded (h ++ [x]) on = h.recorded on := by
    rw [History.recorded_concat, hstamp, Option.toList_none, List.append_nil]
  have hsince : History.recordedSince (h ++ [x]) on = h.recordedSince on := by
    rw [History.recordedSince_concat on x hclear, hstamp, Option.toList_none, List.append_nil]
  refine ⟨henabled, hrun, ?_, ?_, ?_, ?_, ?_⟩ <;> rw [hbuffer]
  · exact hr.capacity
  · rw [hrecorded]; exact hr.next
  · rw [hsince]; exact hr.stamped
  · exact hr.ids
  · rw [hrecorded]; exact hr.places

/-- An event that is recorded comes behind all others, under the next number. -/
theorem recorded (hr : r.Holds on room h) {s : Stamped} (hstamp : h.stamp on x = some s)
    (hclear : x.2 ≠ .clear) {r' : Recorder} (henabled : r'.enabled = History.isOn (h ++ [x]) on)
    (hrun : r'.run = History.starts (h ++ [x]))
    (hbuffer : r'.buffer = (r.buffer.push s.run s.timestamp s.event).2) :
    r'.Holds on room (h ++ [x]) := by
  let record : Record := ⟨r.buffer.next, s.run, s.timestamp, s.event⟩
  have hrecorded : History.recorded (h ++ [x]) on = h.recorded on ++ [s] := by
    rw [History.recorded_concat, hstamp, Option.toList_some]
  have hsince : History.recordedSince (h ++ [x]) on = h.recordedSince on ++ [s] := by
    rw [History.recordedSince_concat on x hclear, hstamp, Option.toList_some]
  have hrecords : r'.buffer.records = (r.buffer.records ++ [record]).rtake room := by
    rw [hbuffer, Buffer.records_push_eq, hr.capacity]
  have hnext : r'.buffer.next = r.buffer.next + 1 := by
    rw [hbuffer, Buffer.next_push]
  refine ⟨henabled, hrun, ?_, ?_, ?_, ?_, ?_⟩
  · rw [hbuffer, Buffer.capacity_push, hr.capacity]
  · rw [hnext, hr.next, hrecorded, List.length_append, List.length_singleton]
  · calc r'.buffer.records.map Record.stamped
        = (r.buffer.records.map Record.stamped ++ [s]).rtake room := by
          rw [hrecords, map_rtake, List.map_append]; rfl
      _ = (h.recordedSince on ++ [s]).rtake room := by
          rw [hr.stamped, rtake_concat, Nat.min_eq_left (Nat.le_succ room)]
      _ = _ := by rw [hsince]
  · calc r'.buffer.records.map (·.id)
        = (r.buffer.records.map (·.id) ++ [r.buffer.next]).rtake room := by
          rw [hrecords, map_rtake, List.map_append]; rfl
      _ = (List.range (r.buffer.next + 1)).rtake (min room (r.buffer.records.length + 1)) := by
          rw [hr.ids, rtake_concat, List.range_succ]
      _ = _ := by
          rw [hnext, hrecords, length_rtake, List.length_append, List.length_singleton]
  · intro held hheld
    rw [hrecords] at hheld
    rw [hrecorded]
    -- The older records keep their places; the new number is the place behind them all.
    rcases List.mem_append.mp ((rtake_suffix _ _).mem hheld) with hold | hnew
    · exact getElem?_of_isPrefix (List.prefix_append _ _) (hr.places held hold)
    · rw [List.mem_singleton.mp hnew]
      exact (congrArg _ hr.next).trans List.getElem?_concat_length

/-- Of a recorder that was emptied nothing is left but its counts. -/
theorem clear (hr : r.Holds on room h) (now : Nat) :
    r.clear.Holds on room (h ++ [(now, .clear)]) := by
  refine of_empty ?_ ?_ hr.capacity ?_ (Buffer.records_clear _) (History.recordedSince_clear on now)
  · rw [History.isOn_concat]
    exact hr.enabled
  · rw [History.starts_concat]
    exact hr.run
  · rw [History.recorded_concat, History.stamp_of_silent on _ rfl, Option.toList_none,
      List.append_nil]
    exact hr.next

/-- A request that tells an event is served in the run it belongs to. -/
theorem serve_eq (hr : r.Holds on room h) {event : Event} (hevent : x.2.event? = some event) :
    r.serve x = { r with run := History.starts (h ++ [x]) }.record x.1 event := by
  obtain ⟨now, request⟩ := x
  rw [History.starts_concat, ← hr.run]
  cases request with
  | start => cases hevent; rfl
  | finish success cost => cases hevent; rfl
  | tell told => cases hevent; rfl
  | switch on' => cases hevent
  | format json => cases hevent
  | clear => cases hevent

theorem serve_told (hr : r.Holds on room h) {event : Event} (hevent : x.2.event? = some event) :
    (r.serve x).Holds on room (h ++ [x]) := by
  have hclear : x.2 ≠ .clear := fun hx => nomatch (hx ▸ hevent : Request.event? .clear = some event)
  have henabled : r.enabled = History.isOn (h ++ [x]) on := by
    rw [History.isOn_concat, Request.switch?_of_event? hevent]
    exact hr.enabled
  rw [hr.serve_eq hevent]
  rcases Bool.eq_false_or_eq_true r.enabled with hon | hoff
  · have hstamp : h.stamp on x = some ⟨History.starts (h ++ [x]), x.1, event⟩ := by
      rw [History.stamp, ← hr.enabled, hon, if_pos rfl, hevent]
      rfl
    obtain ⟨echoes, hrecord⟩ :=
      record_on (r := { r with run := History.starts (h ++ [x]) }) hon x.1 event
    rw [hrecord]
    exact hr.recorded hstamp hclear henabled rfl rfl
  · have hstamp : h.stamp on x = none := by
      rw [History.stamp, ← hr.enabled, hoff, if_neg Bool.false_ne_true]
    rw [record_off (r := { r with run := History.starts (h ++ [x]) }) hoff]
    exact hr.unrecorded hstamp hclear henabled rfl rfl

/-- One request is kept up with, whatever it is. -/
theorem serve (hr : r.Holds on room h) (x : Nat × Request) :
    (r.serve x).Holds on room (h ++ [x]) := by
  cases hevent : x.2.event? with
  | some event => exact hr.serve_told hevent
  | none =>
    have hstamp : h.stamp on x = none := History.stamp_of_silent on _ hevent
    obtain ⟨now, request⟩ := x
    cases request with
    | switch on' =>
      refine hr.unrecorded hstamp nofun ?_ ?_ rfl
      · rw [History.isOn_concat]; rfl
      · rw [History.starts_concat]; exact hr.run
    | format json =>
      refine hr.unrecorded hstamp nofun ?_ ?_ rfl
      · rw [History.isOn_concat]; exact hr.enabled
      · rw [History.starts_concat]; exact hr.run
    | clear => exact hr.clear now
    | start => cases hevent
    | finish success cost => cases hevent
    | tell event => cases hevent

end Holds

/-- A new recorder keeps up with every history, request by request. -/
theorem holds_follow (o : Observation) (h : History) :
    (o.recorder.follow h).Holds o.enabled o.bufferSize h := by
  induction h using List.reverseRecOn with
  | nil => exact .of_empty rfl rfl rfl rfl (Buffer.records_ofCapacity o.bufferSize) rfl
  | append_singleton h x ih =>
    rw [follow_concat]
    exact ih.serve x

/-- No more numbers are given and no more runs are begun than there are requests. -/
theorem counts_le (o : Observation) (h : History) :
    (o.recorder.follow h).buffer.next ≤ h.length ∧ (o.recorder.follow h).run ≤ h.length := by
  have hr := holds_follow o h
  rw [hr.next, hr.run]
  exact ⟨h.length_recorded_le o.enabled, List.countP_le_length⟩

end Recorder

/-! ### Run by run -/

/-- Records in the order of their runs can be put together again from the runs in increasing
order. -/
theorem flatMap_filter_run {runs : List Nat} {rs : List Record} (hruns : runs.Pairwise (· < ·))
    (hrs : rs.Pairwise (·.run ≤ ·.run)) (hmem : ∀ r ∈ rs, r.run ∈ runs) :
    (runs.flatMap fun run => rs.filter (·.run == run)) = rs := by
  induction rs with
  | nil => simp
  | cons r rs ih =>
    obtain ⟨hfirst, hrest⟩ := List.pairwise_cons.mp hrs
    have ih := ih hrest fun r hr => hmem r (List.mem_cons_of_mem _ hr)
    obtain ⟨before, after, rfl⟩ := List.append_of_mem (hmem r List.mem_cons_self)
    obtain ⟨-, hafter, hbefore⟩ := List.pairwise_append.mp hruns
    -- The first record is of the earliest run there is, so no run before that one has records.
    have hearlier {rs' : List Record} (hle : ∀ r' ∈ rs', r.run ≤ r'.run) :
        (before.flatMap fun run => rs'.filter (·.run == run)) = [] := by
      refine List.flatMap_eq_nil_iff.mpr fun run hrun => List.filter_eq_nil_iff.mpr fun r' hr' => ?_
      have hlt := hbefore run hrun r.run List.mem_cons_self
      have hle := hle r' hr'
      rw [beq_iff_eq]
      omega
    have hlater : (after.flatMap fun run => (r :: rs).filter (·.run == run)) =
        after.flatMap fun run => rs.filter (·.run == run) := by
      refine List.flatMap_congr fun run hrun => List.filter_cons_of_neg ?_
      have hlt := (List.pairwise_cons.mp hafter).1 run hrun
      rw [beq_iff_eq]
      omega
    rw [List.flatMap_append, List.flatMap_cons, hearlier hfirst, List.nil_append] at ih
    have hall : ∀ r' ∈ r :: rs, r.run ≤ r'.run := List.forall_mem_cons.mpr ⟨le_rfl, hfirst⟩
    have hown : (r :: rs).filter (·.run == r.run) = r :: rs.filter (·.run == r.run) :=
      List.filter_cons_of_pos (beq_self_eq_true r.run)
    rw [List.flatMap_append, List.flatMap_cons, hearlier hall, List.nil_append, hlater, hown,
      List.cons_append, ih]

/-- **The newest records are held.** Whatever is asked of a new recorder, its buffer holds the last
events of those recorded since it was last cleared, as many as it has room for, as they were told.
Their numbers are the last that were given, one after the other. The first event ever recorded was
given zero and each further one the next number, so a number stands for one event for good, also
when no record of it is held any more or ever was. The records are in the order of their runs, which
count every start so far, and put together run by run they are the whole buffer. Neither count is
above the number of requests, so words of 64 bits hold both in every history of fewer than 2⁶⁴. -/
theorem holds_newest (o : Observation) (h : History) :
    let r := o.recorder.follow h
    let held := min o.bufferSize (h.recordedSince o.enabled).length
    r.buffer.records.map Record.stamped = (h.recordedSince o.enabled).rtake held ∧
    r.buffer.records.map (·.id) = (List.range r.buffer.next).rtake held ∧
    r.buffer.next = (h.recorded o.enabled).length ∧
    (∀ later : History, ∀ record ∈ r.buffer.records,
      (History.recorded (h ++ later) o.enabled)[record.id]? = some record.stamped) ∧
    r.buffer.records.Pairwise (·.run ≤ ·.run) ∧
    r.run = h.starts ∧
    (List.range (r.run + 1)).flatMap r.buffer.ofRun = r.buffer.records ∧
    r.buffer.next ≤ h.length ∧ r.run ≤ h.length := by
  intro r held
  have hr : r.Holds o.enabled o.bufferSize h := Recorder.holds_follow o h
  have hstamped : r.buffer.records.map Record.stamped = (h.recordedSince o.enabled).rtake held := by
    rw [hr.stamped, rtake_min_length]
  have hlength : r.buffer.records.length = held := by
    have hmap := congrArg List.length hr.stamped
    rwa [List.length_map, length_rtake] at hmap
  have hruns : r.buffer.records.Pairwise (·.run ≤ ·.run) := by
    have hsince : ((h.recordedSince o.enabled).rtake o.bufferSize).Pairwise (·.run ≤ ·.run) :=
      (h.runs_recordedFrom o.enabled h.cleared).sublist (rtake_suffix _ _).sublist
    rw [← hr.stamped, List.pairwise_map] at hsince
    exact hsince
  refine ⟨hstamped, hlength ▸ hr.ids, hr.next, fun later record hrecord => ?_, hruns, hr.run, ?_,
    Recorder.counts_le o h⟩
  · exact getElem?_of_isPrefix (History.recorded_isPrefix _ h later) (hr.places record hrecord)
  · refine flatMap_filter_run List.pairwise_lt_range hruns fun record hrecord => ?_
    have hrecorded := List.mem_of_getElem? (hr.places record hrecord)
    rw [List.mem_range, Nat.lt_succ_iff, hr.run]
    exact History.run_le_starts _ hrecorded

/-- A history with an event before the first run, a clearing, and a run that begins unrecorded. -/
def interrupted : History :=
  [(0, .tell (.error "early")), (1, .start), (2, .clear), (3, .tell (.command 0 "say a")),
    (4, .switch false), (5, .start), (6, .tell (.command 0 "say b")), (7, .switch true),
    (8, .tell (.error "c")), (9, .start)]

/-- With room for two records, two of the three events since the clearing are held, and a number
goes on standing for its event. -/
theorem holds_newest_interrupted :
    let r := (Observation.recorder { enabled := true, bufferSize := 2 }).follow interrupted
    r.buffer.records = [⟨3, 2, 8, .error "c"⟩, ⟨4, 3, 9, .runStart⟩] ∧
      r.buffer.next = 5 ∧
      (History.recorded (interrupted ++ [(10, .clear), (11, .start)]) true)[3]? =
        some ⟨2, 8, .error "c"⟩ ∧
      r.buffer.ofRun 2 ++ r.buffer.ofRun 3 = r.buffer.records := by
  have hrecords : ((Observation.recorder { enabled := true, bufferSize := 2 }).follow
      interrupted).buffer.records = [⟨3, 2, 8, .error "c"⟩, ⟨4, 3, 9, .runStart⟩] := by
    decide +kernel
  have hrecorded : (interrupted.recorded true).length = 5 := by decide +kernel
  obtain ⟨-, -, hnext, hplaces, -⟩ := holds_newest { enabled := true, bufferSize := 2 } interrupted
  refine ⟨hrecords, hnext.trans hrecorded, hplaces _ ⟨3, 2, 8, .error "c"⟩ ?_, ?_⟩
  · rw [hrecords]
    exact List.mem_cons_self
  · decide +kernel

end Trampoline.Trace
