import Trampoline.Text.Blank

/-! Inputs over several lines.

An input goes on after a backslash at its end, and as long as a bracket or a quote
is open. Brackets count only outside of quotes, and only inside of quotes does a
backslash hide the next character. A line that goes on takes its backslash and
the blanks around the line end with it; otherwise a space joins the two.

A script and the prompt read the same inputs; a script also skips lines that are
blank or a comment, where an input could begin. -/
namespace Trampoline.Continuation

/-- What is open after some characters. -/
structure Scan where
  depth : Int := 0
  quote : Option Char := none
  /-- Whether the next character is hidden by a backslash. -/
  escaped : Bool := false
  deriving DecidableEq, Repr

namespace Scan

def step (s : Scan) (c : Char) : Scan :=
  if s.escaped then { s with escaped := false }
  else
    match s.quote with
    | some quote =>
      if c == '\\' then { s with escaped := true }
      else if c == quote then { s with quote := none }
      else s
    | none =>
      if c == '"' || c == '\'' then { s with quote := some c }
      else if c == '\x7b' || c == '[' then { s with depth := s.depth + 1 }
      else if c == '\x7d' || c == ']' then { s with depth := s.depth - 1 }
      else s

def isClosed (s : Scan) : Bool := s.depth ≤ 0 && s.quote.isNone

end Scan

def scan (cs : List Char) : Scan := cs.foldl Scan.step {}

def endsInBackslash (cs : List Char) : Bool := (Text.trimEnd cs).getLast? == some '\\'

/-- Whether an input needs no further line. -/
def isComplete (input : List Char) : Bool := !endsInBackslash input && (scan input).isClosed

/-- An input with one more line. -/
def join (input line : List Char) : List Char :=
  let input := Text.trimEnd input
  let input := if input.getLast? == some '\\' then input.dropLast else input ++ [' ']
  input ++ Text.trimStart line

/-! ### Scripts -/

/-- A line that begins no input. -/
def isSkipped (line : List Char) : Bool :=
  match Text.trim line with
  | [] => true
  | c :: _ => c == '#'

/-- An input, complete or still open. -/
def settle (input : List Char) : Option (List Char) × Option (List Char) :=
  if isComplete input then (some input, none) else (none, some input)

/-- One more line of a script after the input left open, if there is one: the input it completes,
and the input it leaves open. -/
def feed (pending : Option (List Char)) (line : List Char) :
    Option (List Char) × Option (List Char) :=
  match pending with
  | some input => settle (join input line)
  | none => if isSkipped line then (none, none) else settle line

/-- The inputs of a script's lines, in order, and the input left open at their end. -/
def inputs (pending : Option (List Char)) : List (List Char) → List (List Char) × Option (List Char)
  | [] => ([], pending)
  | line :: rest =>
    let (input, pending) := feed pending line
    let (more, left) := inputs pending rest
    (input.toList ++ more, left)

end Trampoline.Continuation
