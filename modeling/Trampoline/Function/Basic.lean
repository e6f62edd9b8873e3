import Trampoline.Dialect
import Trampoline.Digest
import Trampoline.Template
import Trampoline.Value.Printer

/-! Functions.

A function text compiles to a fixed body, or, if a line of it has variables, to a
templated function that makes a body from arguments. A templated function keeps
the bodies of the last few argument lists it was called with, most recent first;
a request for a kept list gives the very body made before. A request that fails
changes nothing. -/
namespace Trampoline

/-- The longest line a function may have, in characters. -/
def maxLineLength : Nat := 2000000

/-- The characters of an overlong line that are shown. -/
def excerptLength : Nat := 512

/-- The fault of a line that is too long. -/
def tooLong (line : List Char) : Fault.Kind :=
  .tooLong line.length (String.ofList (line.take excerptLength))

/-- The fault of a line, if it is too long. -/
def overlong (line : List Char) : Option Fault.Kind :=
  if line.length ≤ maxLineLength then none else some (tooLong line)

/-- A line of a templated function. -/
inductive TemplatedLine (V : Vocabulary) where
  | plain (chain : Chain V)
  /-- `slots` are the places of the template's variables among the function's parameters, and
  `line` is the line's number in the text. -/
  | template (template : Template) (slots : List Nat) (line : Nat)

structure Templated (V : Vocabulary) where
  id : String
  lines : List (TemplatedLine V)
  /-- The names of all variables, in the order they first appear. -/
  parameters : List String
  /-- The level its lines are resolved at. -/
  permission : Nat
  /-- Bodies by the arguments they were made from, most recently used first. -/
  cache : List (List String × Body V) := []
  /-- How many bodies were made. -/
  made : Nat := 0

/-- How many argument lists a templated function keeps. -/
def cacheCapacity : Nat := 8

namespace Templated

variable {V : Vocabulary}

/-- The text of each parameter, or why there is none. -/
def key (t : Templated V) (arguments : Option Record) : Except CommandError (List String) :=
  match arguments with
  | none => .error ⟨⟨Message.missingArgumentsKey, [t.id]⟩, none⟩
  | some record =>
    t.parameters.mapM fun name =>
      match record.get? name with
      | some value => .ok value.argument
      | none => .error ⟨⟨Message.missingArgumentKey, [t.id, name]⟩, none⟩

/-- The name of the body made from the given texts. -/
def bodyId (t : Templated V) (values : List String) : String :=
  t.id ++ "/" ++ Numeral.text (Digest.ofTexts values).toNat

/-- A template's text with the values of its variables in place. -/
def fillSlots (template : Template) (slots : List Nat) (values : List String) : String :=
  String.ofList (template.fill (slots.map fun slot => values.getD slot ""))

/-- The chain of a filled line. -/
def fillLine (parse : String → Except CommandError (Chain V)) (bodyId : String)
    (values : List String) : TemplatedLine V → Except CommandError (Chain V)
  | .plain chain => .ok chain
  | .template template slots _ =>
    let text := fillSlots template slots values
    let refuse (reason : String) : CommandError := ⟨⟨Message.fillingKey, [bodyId, text, reason]⟩, none⟩
    match overlong text.toList with
    | some kind => .error (refuse kind.message)
    | none =>
      match parse text with
      | .ok chain => .ok chain
      | .error e => .error (refuse e.describe)

/-- Makes a body from the texts of the parameters. -/
def build (parse : String → Except CommandError (Chain V)) (t : Templated V) (values : List String) :
    Except CommandError (Body V) := do
  let id := t.bodyId values
  let lines ← t.lines.mapM (fillLine parse id values)
  return ⟨id, lines, t.made⟩

/-- The body for some arguments, kept or newly made. -/
def instantiate (parse : String → Except CommandError (Chain V)) (t : Templated V)
    (arguments : Option Record) : Except CommandError (Body V) × Templated V :=
  match t.key arguments with
  | .error e => (.error e, t)
  | .ok values =>
    match t.cache.lookup values with
    | some body =>
      (.ok body, { t with cache := (values, body) :: t.cache.filter fun (k, _) => k != values })
    | none =>
      match t.build parse values with
      | .error e => (.error e, t)
      | .ok body =>
        (.ok body, { t with
          cache := (values, body) :: t.cache.take (cacheCapacity - 1)
          made := t.made + 1 })

def isCached (t : Templated V) (values : List String) : Bool := (t.cache.lookup values).isSome

end Templated

inductive Function (V : Vocabulary) where
  | plain (body : Body V)
  | templated (t : Templated V)

namespace Function

variable {V : Vocabulary}

def id : Function V → String
  | .plain body => body.id
  | .templated t => t.id

def parameters : Function V → List String
  | .plain _ => []
  | .templated t => t.parameters

/-- The number of lines a call runs. -/
def size : Function V → Nat
  | .plain body => body.lines.length
  | .templated t => t.lines.length

/-- The body to call. A plain function takes no notice of arguments. -/
def instantiate (parse : Nat → String → Except CommandError (Chain V)) (f : Function V)
    (arguments : Option Record) : Except CommandError (Body V) × Function V :=
  match f with
  | .plain body => (.ok body, f)
  | .templated t =>
    let (result, t) := t.instantiate (parse t.permission) arguments
    (result, .templated t)

end Function

end Trampoline
