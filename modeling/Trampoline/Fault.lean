import Trampoline.Message
import Trampoline.Numeral

/-! Faults: what stops a compilation or a whole run.

The kinds are the causes; `Kind.message` holds every wording. The context says
where the fault arose: a source with a line, and below it the places that led
there. -/
namespace Trampoline

/-- What a line that starts with a slash was probably meant to be. -/
inductive SlashHint where
  | comment
  | leadingSlash (name : String)
  deriving DecidableEq, Repr

def SlashHint.message : SlashHint → String
  | .comment => "if you intended to make a comment, use '#' not '//'"
  | .leadingSlash name => "did you mean '" ++ name ++ "'? Do not use a preceding forwards slash."

/-- The two ceilings that abort a run. -/
inductive Ceiling where
  | commandCost (limit : Nat)
  | queueOverflow (limit : Nat)
  deriving DecidableEq, Repr

namespace Ceiling

def limit : Ceiling → Nat
  | .commandCost n => n
  | .queueOverflow n => n

def message : Ceiling → String
  | .commandCost n => "command limit (" ++ Numeral.text n ++ ") reached"
  | .queueOverflow n => "command queue limit (" ++ Numeral.text n ++ ") reached"

end Ceiling

inductive Fault.Kind where
  | continuationAtEnd (line : Nat)
  | slashLine (command : String) (line : Nat) (hint : SlashHint)
  | tooLong (length : Nat) (excerpt : String)
  | unparsable (line : Nat) (message : String)
  | badTemplate (line : Nat) (text reason : String)
  | instantiation (message : Message)
  | ceiling (c : Ceiling)
  | io (text : String)
  | settings (text : String)
  | internal (text : String)
  deriving DecidableEq, Repr

def Fault.Kind.message : Fault.Kind → String
  | .continuationAtEnd line => "line continuation at end of file (line " ++ Numeral.text line ++ ")"
  | .slashLine command line hint =>
    "unknown or invalid command '" ++ command ++ "' on line " ++ Numeral.text line ++ " (" ++
      hint.message ++ ")"
  | .tooLong length excerpt =>
    "command too long: " ++ Numeral.text length ++ " characters, contents: " ++ excerpt ++ "..."
  | .unparsable line message =>
    "whilst parsing command on line " ++ Numeral.text line ++ ": " ++ message
  | .badTemplate line text reason =>
    "can't parse function line " ++ Numeral.text line ++ ": '" ++ text ++ "': " ++ reason
  | .instantiation message => message.render
  | .ceiling c => c.message
  | .io text => "i/o error: " ++ text
  | .settings text => "invalid configuration: " ++ text
  | .internal text => "internal error: " ++ text

/-- Where a fault arose. -/
structure Fault.Context where
  source : Option String := none
  line : Option Nat := none
  stack : List String := []
  deriving DecidableEq, Repr

namespace Fault.Context

/-- The same place, reached through one more. -/
def through (c : Context) (place : String) : Context := { c with stack := c.stack ++ [place] }

def describe (c : Context) : String :=
  let head := match c.source, c.line with
    | some source, some line => "in " ++ source ++ ":" ++ Numeral.text line
    | some source, none => "in " ++ source
    | none, _ => ""
  if c.stack.isEmpty then head
  else head ++ "\n" ++ String.join (c.stack.map fun place => "  from " ++ place ++ "\n")

end Fault.Context

structure Fault where
  kind : Fault.Kind
  context : Option Fault.Context := none
  deriving DecidableEq, Repr

namespace Fault

def message (f : Fault) : String := f.kind.message

def isCeiling (f : Fault) : Bool :=
  match f.kind with
  | .ceiling _ => true
  | _ => false

def ofCeiling (c : Ceiling) : Fault := ⟨.ceiling c, none⟩

def internal (text : String) : Fault := ⟨.internal text, none⟩

end Fault

end Trampoline
