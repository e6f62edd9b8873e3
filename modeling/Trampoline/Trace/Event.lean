/-! What a trace tells: the start and the end of runs, and in between the commands
executed, their results, the functions called and the errors reported. -/
namespace Trampoline.Trace

inductive Event where
  | runStart
  | runEnd (success : Bool) (cost : Nat)
  | command (depth : Nat) (command : String)
  | returned (depth : Nat) (command : String) (result : Int32)
  | call (depth : Nat) (function : String) (size : Nat)
  | error (message : String)
  deriving DecidableEq, Repr

/-- The name of an event's kind. -/
def Event.kind : Event → String
  | .runStart => "run-start"
  | .runEnd .. => "run-end"
  | .command .. => "command"
  | .returned .. => "return"
  | .call .. => "call"
  | .error .. => "error"

end Trampoline.Trace
