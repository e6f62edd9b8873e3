import Trampoline.Command.Vocabulary
import Trampoline.Compound
import Trampoline.Text.Split

/-! The grammar of command lines.

    say <text>
    counter get <name> | counter add <name> <n> | counter set <name> <n>
    fail <text>
    return <n> | return fail | return run <command>
    execute <subcommand>... run <command>
    function <id> [<compound>]
    trigger <id>

The subcommands of `execute` are `as <a>,<b>,...`, `silent`, and `if counter
<name> <n>` or `unless counter <name> <n>`. A condition that ends the line is
itself the command: a test. `execute`, `function` and `trigger` are open to
privileged sources only, and to others the line reads as if it ended there.

Each stage keeps the text it came from: a subcommand its own words, a command
everything to the end of the line. Reading a word uses up at least one character,
so a line needs no more calls than it has characters. -/
namespace Trampoline.Command

/-- The level of the sources that may use every command. -/
def privilegedLevel : Nat := 2

/-- Where ids without a namespace belong. -/
def defaultNamespace : String := "minecraft"

/-- An id with its namespace. -/
def normalizeId (id : String) : String :=
  if id.toList.contains ':' then id else defaultNamespace ++ ":" ++ id

def expectEnd (c : Cursor) : Except CommandError Unit :=
  if c.atEnd then .ok () else .error c.invalid

def expectId (c : Cursor) : Except CommandError (String × Cursor) := do
  let (w, c) ← c.expectWord
  return (normalizeId (String.ofList w), c)

/-- After `counter`. -/
def readCounter (start : Cursor) : Except CommandError Verb := do
  let (action, c) ← start.expectWord
  let (name, c) ← c.expectWord
  let name := String.ofList name
  match String.ofList action with
  | "get" =>
    expectEnd c
    return .getCounter name
  | "add" =>
    let (delta, c) ← c.expectNumber Numeral.readInt32
    expectEnd c
    return .addCounter name delta
  | "set" =>
    let (value, c) ← c.expectNumber Numeral.readInt32
    expectEnd c
    return .setCounter name value
  | _ => .error start.invalid

/-- After `if` or `unless`. -/
def readCondition (expected : Bool) (c : Cursor) : Except CommandError (Condition × Cursor) := do
  match c.eatKeyword "counter" with
  | none => .error c.invalid
  | some c =>
    let (name, c) ← c.expectWord
    let (least, c) ← c.expectNumber Numeral.readInt32
    return (⟨expected, String.ofList name, least⟩, c)

/-- After `function`. -/
def readCall (c : Cursor) : Except CommandError Executor := do
  let (id, c) ← expectId c
  if c.atEnd then
    return .function id none
  else
    let (arguments, c) ← c.compound
    expectEnd c.skipSpaces
    return .function id (some arguments)

/-- After `trigger`. -/
def readTrigger (c : Cursor) : Except CommandError Executor := do
  let (id, c) ← expectId c
  expectEnd c
  return .trigger id

/-- After `return`, where `run` does not follow. -/
def readReturn (c : Cursor) : Except CommandError Executor := do
  match c.eatKeyword "fail" with
  | some c =>
    expectEnd c
    return .return none
  | none =>
    let (value, c) ← c.expectNumber Numeral.readInt32
    expectEnd c
    return .return (some value)

/-- After `as`. -/
def readNames (c : Cursor) : Except CommandError (List String × Cursor) := do
  let (w, c) ← c.expectWord
  let names := ((Text.split ',' w).filter fun name => !name.isEmpty).map String.ofList
  if names.isEmpty then .error c.invalid else return (names, c)

/-- The text of a subcommand, without blanks at its end. -/
def subcommandText (start stop : Cursor) : String :=
  String.ofList (Text.trimEnd (start.upTo stop))

mutual
def readCommand (privileged : Bool) : Nat → Cursor → Except CommandError (List (Stage standard))
  | 0, c => .error c.incomplete
  | n + 1, start => do
    let runs (e : Executable standard) : List (Stage standard) :=
      [{ input := start.restText, executable := some e }]
    let (w, c) ← start.expectWord
    match String.ofList w with
    | "say" =>
      if c.atEnd then .error c.incomplete else return runs (.command (.say c.restText))
    | "counter" => return runs (.command (← readCounter c))
    | "fail" => return runs (.command (.fail c.restText))
    | "execute" => if privileged then readExecute privileged n c else .error c.incomplete
    | "return" =>
      match c.eatKeyword "run" with
      | some c =>
        let rest ← readCommand privileged n c
        return { input := start.restText, redirect := some (.custom .returnRun) } :: rest
      | none => return runs (.custom (← readReturn c))
    | "function" =>
      if privileged then return runs (.custom (← readCall c)) else .error c.incomplete
    | "trigger" =>
      if privileged then return runs (.custom (← readTrigger c)) else .error c.incomplete
    | _ => .error start.invalid

/-- After `execute`. -/
def readExecute (privileged : Bool) : Nat → Cursor → Except CommandError (List (Stage standard))
  | 0, c => .error c.incomplete
  | n + 1, start => do
    let modifies (stop : Cursor) (m : Modifier) (forks : Bool) : Stage standard :=
      { input := subcommandText start stop, redirect := some (.modifier m), forks }
    let (w, c) ← start.expectWord
    match String.ofList w with
    | "run" => readCommand privileged n c
    | "as" =>
      let (names, c) ← readNames c
      return modifies c (.rename names) true :: (← readExecute privileged n c)
    | "silent" => return modifies c .silence false :: (← readExecute privileged n c)
    | "if" => readConditional privileged n start (← readCondition true c)
    | "unless" => readConditional privileged n start (← readCondition false c)
    | _ => .error start.invalid

/-- A condition of `execute`: a test at the end of the line, and a filter before it. -/
def readConditional (privileged : Bool) :
    Nat → Cursor → Condition × Cursor → Except CommandError (List (Stage standard))
  | 0, _, (_, c) => .error c.incomplete
  | n + 1, start, (condition, c) => do
    let input := subcommandText start c
    if c.atEnd then
      return [{ input, executable := some (.command (.test condition)) }]
    else
      return { input, redirect := some (.modifier (.filter condition)) } ::
        (← readExecute privileged n c)
end

/-- Each character takes at most two calls. -/
def fuelFor (c : Cursor) : Nat := 2 * c.rest.length + 2

/-- The stages of a line, as a source of the given level may use it. -/
def resolve (permission : Nat) (input : String) : Except CommandError (List (Stage standard)) :=
  let c := Cursor.ofText input
  readCommand (privilegedLevel ≤ permission) (fuelFor c) c

/-- The chain of a line. -/
def parse (permission : Nat) (input : String) : Except CommandError (Chain standard) :=
  Chain.parse (resolve permission) input

end Trampoline.Command
