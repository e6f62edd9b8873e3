import Trampoline.CommandError

/-! Command chains.

A line of a command language resolves to a list of stages. Every stage but the
last redirects its sources to the next one; the last stage runs something. What
can stand in a stage is a vocabulary: modifiers turn each source into any number
of sources, commands are executed for each source, and redirectors and executors
take the chain over altogether.

A chain is a position in such a list, so there is always a stage it stands on. -/
namespace Trampoline

structure Vocabulary where
  Modifier : Type
  Command : Type
  /-- Takes over the chain before its end. -/
  Redirector : Type
  /-- Takes over the last stage. -/
  Executor : Type

inductive Redirect (V : Vocabulary) where
  | modifier (m : V.Modifier)
  | custom (r : V.Redirector)

inductive Executable (V : Vocabulary) where
  | command (c : V.Command)
  | custom (e : V.Executor)

structure Stage (V : Vocabulary) where
  input : String
  redirect : Option (Redirect V) := none
  forks : Bool := false
  executable : Option (Executable V) := none

/-- What can be seen of a stage from outside: what it runs is told apart by its kind only. -/
inductive Part where
  | plain
  | custom
  deriving DecidableEq, Repr

namespace Stage

variable {V : Vocabulary}

def redirectPart (s : Stage V) : Option Part :=
  s.redirect.map fun
    | .modifier _ => .plain
    | .custom _ => .custom

def executablePart (s : Stage V) : Option Part :=
  s.executable.map fun
    | .command _ => .plain
    | .custom _ => .custom

def sameShape (a b : Stage V) : Bool :=
  a.input == b.input && a.forks == b.forks && a.redirectPart == b.redirectPart &&
    a.executablePart == b.executablePart

end Stage

/-- A stage of a list, with the stages before it (nearest first) and after it. -/
structure Chain (V : Vocabulary) where
  input : String
  before : List (Stage V)
  top : Stage V
  after : List (Stage V)

namespace Chain

variable {V : Vocabulary}

/-- Whether every stage but the last redirects and the last one runs something. -/
def wellShaped : List (Stage V) → Bool
  | [] => false
  | [last] => last.executable.isSome
  | stage :: rest => stage.redirect.isSome && wellShaped rest

/-- A list of stages as a chain that stands on the first of them. -/
def flatten? (input : String) (stages : List (Stage V)) : Option (Chain V) :=
  match stages with
  | [] => none
  | top :: after => if wellShaped (top :: after) then some ⟨input, [], top, after⟩ else none

def isTerminal (c : Chain V) : Bool := c.after.isEmpty

/-- One stage on; at the last stage the chain stays. -/
def next (c : Chain V) : Chain V :=
  match c.after with
  | [] => c
  | stage :: rest => ⟨c.input, c.top :: c.before, stage, rest⟩

/-- The positions from `top` on, one for each stage. -/
def positionsFrom (input : String) (before : List (Stage V)) (top : Stage V) :
    (after : List (Stage V)) → List (Chain V)
  | [] => [⟨input, before, top, []⟩]
  | stage :: rest => ⟨input, before, top, stage :: rest⟩ :: positionsFrom input (top :: before) stage rest

def positions (c : Chain V) : List (Chain V) := positionsFrom c.input c.before c.top c.after

def stages (c : Chain V) : List (Stage V) := c.before.reverse ++ c.top :: c.after

def length (c : Chain V) : Nat := c.before.length + 1 + c.after.length

/-- Whether two chains read alike, stand at the same stage and have stages of one shape. -/
def same (a b : Chain V) : Bool :=
  a.input == b.input && a.before.length == b.before.length && a.length == b.length &&
    (a.stages.zip b.stages).all fun (s, t) => s.sameShape t

/-- The chain of a text, given how texts resolve. -/
def parse (resolve : String → Except CommandError (List (Stage V))) (input : String) :
    Except CommandError (Chain V) :=
  match resolve input with
  | .error e => .error e
  | .ok stages =>
    match flatten? input stages with
    | some chain => .ok chain
    | none => .error (.unknownCommand input)

end Chain

/-- What a chain has come through so far. A flag once set stays set. -/
structure Flags where
  /-- Some stage could have split the sources: errors are no longer shown. -/
  forked : Bool := false
  /-- The result of the chain is what the frame returns. -/
  returning : Bool := false
  deriving DecidableEq, Repr

end Trampoline
