import Trampoline.Function.Basic
import Trampoline.Text.Blank

/-! Compiling function texts.

Lines are trimmed. A line that ends in a backslash goes on with the next one: the
backslash gives way to the next line's text. A joined line belongs to the number
of its first part. Blank lines and lines that start with `#` are left out; a line
that starts with `$` is a template; one that starts with a slash is refused; any
other line is a command. The first fault ends the compilation. -/
namespace Trampoline

namespace Compile

/-- A joined line, or the fault met in joining it, with the number of its first part. -/
structure Joined where
  number : Nat
  text : Except Fault.Kind (List Char)

def continues (text : List Char) : Bool := text.getLast? == some '\\'

/-- Joins lines. `number` is the number of the next line, and `open_` the line still to be
continued, newest character first, with its own number. Nothing follows a fault. -/
def join (number : Nat) (open_ : Option (Nat × Backlog Char)) (lines : List (List Char)) :
    List Joined :=
  match open_, lines with
  | none, [] => []
  | some (start, _), [] => [⟨start, .error (.continuationAtEnd start)⟩]
  | none, line :: rest =>
    let text := Text.trim line
    if continues text then join (number + 1) (some (number, Backlog.empty.pushAll text)) rest
    else
      match overlong text with
      | some kind => [⟨number, .error kind⟩]
      | none => ⟨number, .ok text⟩ :: join (number + 1) none rest
  | some (start, newest), line :: rest =>
    let newest := newest.tail.pushAll (Text.trim line)
    if maxLineLength < newest.size then [⟨start, .error (tooLong newest.toList.reverse)⟩]
    else if newest.toList.head? == some '\\' then join (number + 1) (some (start, newest)) rest
    else ⟨start, .ok newest.toList.reverse⟩ :: join (number + 1) none rest

/-- What a line contributes to a function. -/
inductive Item (V : Vocabulary) where
  | command (chain : Chain V)
  | template (template : Template) (line : Nat)

/-- The characters of a command's name after a slash. -/
def isNameChar (c : Char) : Bool := c.isAlphanum || c == '_' || c == '-' || c == '.' || c == '+'

def slashHint (rest : List Char) : SlashHint :=
  match rest with
  | '/' :: _ => .comment
  | _ => .leadingSlash (String.ofList (rest.takeWhile isNameChar))

variable {V : Vocabulary}

/-- Reads one joined line. -/
def readLine (parse : String → Except CommandError (Chain V)) (number : Nat) (text : List Char) :
    Except Fault.Kind (Option (Item V)) :=
  match text with
  | [] => .ok none
  | '#' :: _ => .ok none
  | '/' :: rest => .error (.slashLine (String.ofList text) number (slashHint rest))
  | '$' :: rest =>
    match Template.parse rest with
    | .ok template => .ok (some (.template template number))
    | .error e => .error (.badTemplate number (String.ofList rest) e.message)
  | _ =>
    match parse (String.ofList text) with
    | .ok chain => .ok (some (.command chain))
    | .error e => .error (.unparsable number e.describe)

/-- A fault with its place; an overlong line has none. -/
def located (id : String) (number : Nat) (kind : Fault.Kind) : Fault :=
  match kind with
  | .tooLong .. => ⟨kind, none⟩
  | _ => ⟨kind, some { source := some id, line := some number }⟩

def readJoined (parse : String → Except CommandError (Chain V)) (id : String) (line : Joined) :
    Except Fault (Option (Item V)) :=
  match line.text with
  | .error kind => .error (located id line.number kind)
  | .ok text =>
    match readLine parse line.number text with
    | .error kind => .error (located id line.number kind)
    | .ok item => .ok item

/-- The chains of a list without templates. -/
def chains? (items : List (Item V)) : Option (List (Chain V)) :=
  items.mapM fun
    | .command chain => some chain
    | .template .. => none

/-- The variables of all templates, each once, in the order they first appear. -/
def parametersOf (items : List (Item V)) : List String :=
  (items.flatMap fun
    | .command _ => []
    | .template t _ => t.names).eraseDups

def templatedLine (parameters : List String) : Item V → TemplatedLine V
  | .command chain => .plain chain
  | .template t line => .template t (t.names.map fun name => parameters.idxOf name) line

/-- A function of the items, in order. -/
def assemble (id : String) (permission : Nat) (items : List (Item V)) : Function V :=
  match chains? items with
  | some chains => .plain ⟨id, chains, 0⟩
  | none =>
    let parameters := parametersOf items
    .templated { id, lines := items.map (templatedLine parameters), parameters, permission }

end Compile

/-- Compiles the lines of a function text, for a source of the given level. -/
def Function.compile {V : Vocabulary} (parse : Nat → String → Except CommandError (Chain V))
    (id : String) (permission : Nat) (lines : List String) : Except Fault (Function V) := do
  let joined := Compile.join 1 none (lines.map String.toList)
  let items ← joined.mapM (Compile.readJoined (parse permission) id)
  return Compile.assemble id permission (items.filterMap fun item => item)

end Trampoline
