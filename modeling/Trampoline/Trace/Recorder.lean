import Trampoline.Trace.Buffer
import Trampoline.Trace.Line

/-! The recorder: a buffer that is switched on and off, and knows the present run.

Runs are counted also while the recorder is off. A record can be echoed the moment
it is stored; a buffer of no capacity has nothing to echo. -/
namespace Trampoline.Trace

structure Recorder where
  enabled : Bool := false
  /-- Whether records are echoed. -/
  echoing : Bool := false
  /-- Whether records are written as JSON. -/
  json : Bool := false
  buffer : Buffer := .ofCapacity 10000
  /-- The number of the present run, zero before the first. -/
  run : Nat := 0
  /-- Lines echoed and not yet taken, newest first. -/
  echoes : List String := []

namespace Recorder

/-- A record in the recorder's own form. -/
def text (r : Recorder) (record : Record) : String :=
  if r.json then record.jsonLine else record.line {}

def texts (r : Recorder) (records : List Record) : String :=
  if r.json then jsonLines records else lines {} records

/-- Echoes the record stored last. -/
def echo (r : Recorder) : Recorder :=
  match r.buffer.last? with
  | some record => if r.echoing then { r with echoes := r.text record :: r.echoes } else r
  | none => r

/-- Stores an event of the present run, unless the recorder is off. -/
def record (r : Recorder) (now : Nat) (event : Event) : Recorder :=
  if r.enabled then { r with buffer := (r.buffer.push r.run now event).2 }.echo else r

/-- Begins a new run. -/
def start (r : Recorder) (now : Nat) : Recorder := { r with run := r.run + 1 }.record now .runStart

def finish (r : Recorder) (now : Nat) (success : Bool) (cost : Nat) : Recorder :=
  r.record now (.runEnd success cost)

def clear (r : Recorder) : Recorder := { r with buffer := r.buffer.clear }

/-- The records held of the present run. -/
def present (r : Recorder) : List Record := r.buffer.ofRun r.run

/-- The lines echoed so far, oldest first, and the recorder without them. -/
def takeEchoes (r : Recorder) : List String × Recorder := (r.echoes.reverse, { r with echoes := [] })

/-- Echoing changes nothing but what is echoed. -/
theorem echo_eq (r : Recorder) : ∃ echoes, r.echo = { r with echoes } := by
  unfold echo
  split
  · split
    · exact ⟨_, rfl⟩
    · exact ⟨_, rfl⟩
  · exact ⟨_, rfl⟩

theorem record_on {r : Recorder} (hon : r.enabled = true) (now : Nat) (event : Event) :
    ∃ echoes, r.record now event =
      { r with buffer := (r.buffer.push r.run now event).2, echoes } := by
  rw [record, if_pos hon]
  exact echo_eq _

theorem record_off {r : Recorder} (hoff : r.enabled = false) (now : Nat) (event : Event) :
    r.record now event = r := by
  rw [record, hoff, if_neg Bool.false_ne_true]

end Recorder

end Trampoline.Trace
