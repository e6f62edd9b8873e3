import Trampoline.Message
import Trampoline.Numeral
import Trampoline.Text.Width

/-! Command errors: why one command was refused or failed.

A command error is reported to the source of the command and stops nothing else.
It may point at a place in the text of the command, given as a byte position; the
report then shows the ten bytes before that position, both ends moved down to a
character boundary, and marks the text it left out. -/
namespace Trampoline

/-- A byte position in a text. -/
structure Place where
  input : String
  cursor : Nat
  deriving DecidableEq, Repr

structure CommandError where
  message : Message
  place : Option Place := none
  deriving DecidableEq, Repr

namespace Place

/-- The bytes shown before the position. -/
def shownBytes : Nat := 10

/-- What stands before the position, and whether something was left out in front of it. -/
def lead (p : Place) : List Char × Bool :=
  let before := (Text.cut p.cursor p.input.toList).1
  let (hidden, shown) := Text.cut (Text.width before - shownBytes) before
  (shown, !hidden.isEmpty)

def describe (p : Place) : String :=
  let (shown, more) := p.lead
  " at position " ++ Numeral.text p.cursor ++ ": " ++ (if more then "..." else "") ++
    String.ofList shown ++ "<--[HERE]"

end Place

namespace CommandError

def describe (e : CommandError) : String :=
  e.message.render ++ (e.place.map Place.describe).getD ""

def atPlace (e : CommandError) (input : String) (cursor : Nat) : CommandError :=
  { e with place := some ⟨input, cursor⟩ }

/-- An error that is a text and nothing more. -/
def invalid (text : String) : CommandError := ⟨Message.literal text, none⟩

/-- The text ended too early, or names nothing known; the place is its end. -/
def unknownCommand (input : String) : CommandError :=
  ⟨⟨Message.unknownCommandKey, []⟩, some ⟨input, input.utf8ByteSize⟩⟩

def unknownArgument (input : String) (cursor : Nat) : CommandError :=
  ⟨⟨Message.unknownArgumentKey, []⟩, some ⟨input, cursor⟩⟩

def forkLimit (limit : Nat) : CommandError :=
  ⟨⟨Message.forkLimitKey, [Numeral.text limit]⟩, none⟩

def unknownFunction (id : String) : CommandError := ⟨⟨Message.unknownFunctionKey, [id]⟩, none⟩

def isForkLimit (e : CommandError) : Bool := e.message.key == Message.forkLimitKey

end CommandError

end Trampoline
