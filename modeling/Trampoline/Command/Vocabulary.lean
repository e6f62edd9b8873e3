import Trampoline.Chain
import Trampoline.Value.Basic

/-! The standard vocabulary: everything a line of the command language can do. -/
namespace Trampoline.Command

/-- Whether a counter has reached a value, or whether it has not. -/
structure Condition where
  /-- `if` rather than `unless`. -/
  expected : Bool
  counter : String
  least : Int32
  deriving DecidableEq, Repr

inductive Modifier where
  /-- One source for each name. -/
  | rename (names : List String)
  | silence
  | filter (condition : Condition)
  deriving DecidableEq, Repr

inductive Verb where
  | say (text : String)
  | getCounter (name : String)
  | addCounter (name : String) (delta : Int32)
  | setCounter (name : String) (value : Int32)
  | fail (text : String)
  | test (condition : Condition)
  deriving DecidableEq, Repr

inductive Redirector where
  /-- Gives up the rest of the frame and lets the rest of the chain decide what it returns. -/
  | returnRun
  deriving DecidableEq, Repr

inductive Executor where
  /-- Ends the frame: with a value, or with a failure. -/
  | return (value : Option Int32)
  | function (id : String) (arguments : Option Record)
  | trigger (id : String)

def standard : Vocabulary := ⟨Modifier, Verb, Redirector, Executor⟩

end Trampoline.Command
