import Std.Data.ExtTreeMap
import Trampoline.Command.Grammar
import Trampoline.Function.Compile
import Trampoline.Text.Line

/-! The host: counters, and a library of functions by id.

A counter that was never set is zero, and adding to one stops at the ends of its
range. An id without a namespace belongs to the default one: loading and removing
normalize it, and looking up tries it as it is first. -/
namespace Trampoline

abbrev Counters := Std.ExtTreeMap String Int32

namespace Counters

def value (c : Counters) (name : String) : Int32 := c.getD name 0

/-- The nearest number of the range. -/
def clamp (n : Int) : Int32 := Int32.ofInt (max (-2147483648) (min 2147483647 n))

def add (c : Counters) (name : String) (delta : Int32) : Int32 × Counters :=
  let v := clamp ((c.value name).toInt + delta.toInt)
  (v, c.insert name v)

end Counters

abbrev Library := NameMap (Function Command.standard)

namespace Library

open Command (normalizeId)

/-- Puts a function under its own id; what stood there is given back. -/
def put (l : Library) (f : Function Command.standard) : Option (Function Command.standard) × Library :=
  (l.get? f.id, l.insert f.id f)

def find? (l : Library) (id : String) : Option (Function Command.standard) :=
  match l.get? id with
  | some f => some f
  | none => if id.toList.contains ':' then none else l.get? (normalizeId id)

def remove (l : Library) (id : String) : Option (Function Command.standard) × Library :=
  (l.get? (normalizeId id), l.erase (normalizeId id))

/-- Compiles lines under an id and puts the function into the library. -/
def loadLines (l : Library) (id : String) (lines : List String) : Except Fault (String × Library) := do
  let f ← Function.compile Command.parse (normalizeId id) Source.compiler.permission lines
  return (f.id, (l.put f).2)

def loadText (l : Library) (id : String) (text : String) : Except Fault (String × Library) :=
  l.loadLines id (Text.splitLines text)

/-- The body of a function for some arguments. The function's own store of bodies may change. -/
def instantiate (l : Library) (id : String) (arguments : Option Record) :
    Except CommandError (Body Command.standard) × Library :=
  match l.find? id with
  | none => (.error (.unknownFunction id), l)
  | some f =>
    let (result, f) := f.instantiate Command.parse arguments
    (result, l.insert f.id f)

/-- The largest number of lines a call can run. -/
def longest (l : Library) : Nat := l.foldl (fun n (_, f) => max n f.size) 0

end Library

structure Host where
  counters : Counters := {}
  library : Library := []

end Trampoline
