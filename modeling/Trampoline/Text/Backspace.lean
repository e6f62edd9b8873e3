import Trampoline.Text.Cluster
import Trampoline.Text.Width

/-! Backspaces in a line.

A line that was not typed at a terminal may hold backspaces; each takes the cluster before it
away. The clusters are those of the whole line, so a mark that comes after a backspace has
nothing left to belong to. The width of a cluster is remembered in one byte: of one that is
256 bytes wide or wider only the bytes past the last full 256 go, and a line that would lose a
part of a character cannot be made out at all. -/
namespace Trampoline.Text

def backspace : Char := '\x08'

/-- What is kept of a line: its characters, newest first, and the bytes that the next backspaces
take away. -/
structure Kept where
  chars : List Char := []
  widths : List Nat := []

namespace Kept

def push (k : Kept) (cluster : List Char) : Kept :=
  ⟨cluster.reverse ++ k.chars, width cluster % 256 :: k.widths⟩

/-- Takes the last cluster away, if there is one; none if its width ends inside a character. -/
def pop (k : Kept) : Option Kept :=
  match k.widths with
  | [] => some k
  | n :: widths =>
    let (taken, rest) := cut n k.chars
    if width taken == n then some ⟨rest, widths⟩ else none

def add (k : Kept) (cluster : List Char) : Option Kept :=
  if cluster == [backspace] then k.pop else some (k.push cluster)

end Kept

/-- Carries out the backspaces among clusters. -/
def eraseClusters (gs : List (List Char)) : Option (List Char) :=
  (gs.foldlM Kept.add {}).map fun k => k.chars.reverse

/-- Carries out the backspaces of a line. -/
def erase (line : List Char) : Option (List Char) :=
  if line.contains backspace then eraseClusters (clusters line) else some line

end Trampoline.Text
