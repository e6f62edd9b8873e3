import Trampoline.Json.Printer
import Trampoline.NameMap
import Trampoline.Trace.Event

/-! Trace records.

A record is an event with its number, the run it belongs to, and its time in
nanoseconds. As JSON it is an object whose keys are in alphabetical order: the fields
of its event among those that every record has. -/
namespace Trampoline.Trace

/-- What an event says beside its kind. -/
def Event.fields : Event → List (String × Json)
  | .runStart => []
  | .runEnd success cost => [("success", .bool success), ("cost", .nat cost)]
  | .command depth input => [("depth", .nat depth), ("command", .string input)]
  | .returned depth input result =>
    [("depth", .nat depth), ("command", .string input), ("result", .int result.toInt)]
  | .call depth function size =>
    [("depth", .nat depth), ("function", .string function), ("size", .nat size)]
  | .error message => [("message", .string message)]

structure Record where
  id : Nat
  run : Nat
  timestamp : Nat
  event : Event
  deriving DecidableEq, Repr

namespace Record

/-- What every record says of itself. -/
def base (r : Record) : NameMap Json :=
  .ofList [("id", .nat r.id), ("run", .nat r.run), ("timestamp_ns", .nat r.timestamp),
    ("type", .string r.event.kind)]

/-- The fields of an event are put in among those every record has. -/
def fields (r : Record) : NameMap Json :=
  r.event.fields.foldl (fun fields (key, value) => fields.insert key value) r.base

def toJson (r : Record) : Json := .ofFields r.fields

end Record

end Trampoline.Trace
