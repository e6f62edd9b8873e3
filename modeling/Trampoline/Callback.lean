/-! Outcomes and who hears them.

A unit of work ends with an outcome: whether it succeeded, and a number. A
callback is the listeners that hear the outcome, in order; chaining two callbacks
lets the listeners of the first hear it before those of the second. -/
namespace Trampoline

structure Outcome where
  success : Bool
  value : Int32
  deriving DecidableEq, Repr

namespace Outcome

def ok (value : Int32) : Outcome := ⟨true, value⟩

def failure : Outcome := ⟨false, 0⟩

end Outcome

structure Callback where
  listeners : List String
  deriving DecidableEq, Repr

namespace Callback

/-- Nobody listens. -/
def empty : Callback := ⟨[]⟩

def one (listener : String) : Callback := ⟨[listener]⟩

def isEmpty (c : Callback) : Bool := c.listeners.isEmpty

def chain (first second : Callback) : Callback := ⟨first.listeners ++ second.listeners⟩

end Callback

end Trampoline
