import Trampoline.Decimal.Fixed
import Trampoline.Depth
import Trampoline.Trace.Record

/-! Lines of a trace for people.

A line starts with the run, and on request with the record's number before it and
its time after it. Commands and calls are set in by two spaces for each level of
their frame. -/
namespace Trampoline.Trace

structure Style where
  numbers : Bool := false
  times : Bool := false

/-- Spaces in front, up to a width. -/
def rightAligned (width : Nat) (cs : List Char) : List Char :=
  List.replicate (width - cs.length) ' ' ++ cs

/-- A count divided by a power of ten, as the nearest double with three places. -/
def thousandths (count den : Nat) : List Char :=
  match Decimal.decode .double (Decimal.ofRatio .double count 1) with
  | .finite _ m e =>
    match Decimal.decode .double (Decimal.divided m e den) with
    | .finite _ m e => Decimal.fixed 3 m e
    | _ => []
  | _ => []

/-- A time in whole microseconds, or in larger units from a thousand of them on. -/
def timeText (nanoseconds : Nat) : List Char :=
  let micros := nanoseconds / 1000
  if 1000000 ≤ micros then thousandths micros 1000000 ++ ['s']
  else if 1000 ≤ micros then thousandths micros 1000 ++ ['m', 's']
  else Numeral.ofNat micros ++ ['u', 's']

/-- Two spaces for each level down to what stands in the frame; the last depth there is has none. -/
def indent (depth : Nat) : List Char := List.replicate (2 * Depth.below depth) ' '

/-- What a line says of its event. -/
def Event.describe (run : Nat) : Event → String
  | .runStart => "=== RUN " ++ Numeral.text run ++ " START ==="
  | .runEnd success cost =>
    "=== RUN " ++ Numeral.text run ++ " END (" ++ (if success then "OK" else "ABORTED") ++ ", cost " ++
      Numeral.text cost ++ ") ==="
  | .command depth text => String.ofList (indent depth) ++ "> " ++ text
  | .returned depth text result =>
    String.ofList (indent depth) ++ "< " ++ text ++ " = " ++ Numeral.text result.toInt
  | .call depth function size =>
    String.ofList (indent depth) ++ "CALL " ++ function ++ " (" ++ Numeral.text size ++
      (if size == 1 then " entry)" else " entries)")
  | .error message => "  ERROR " ++ message

namespace Record

def line (style : Style) (r : Record) : String :=
  let number := if style.numbers then '[' :: Numeral.padded 6 r.id ++ [']', ' '] else []
  let run := 'R' :: Numeral.padded 4 r.run ++ [' ']
  let time := if style.times then rightAligned 10 (timeText r.timestamp) ++ [' '] else []
  String.ofList (number ++ run ++ time) ++ r.event.describe r.run

def jsonLine (r : Record) : String := String.ofList r.toJson.write

end Record

/-- One line for each record. -/
def lines (style : Style) (records : List Record) : String :=
  "\n".intercalate (records.map (·.line style))

def jsonLines (records : List Record) : String := "\n".intercalate (records.map (·.jsonLine))

end Trampoline.Trace
