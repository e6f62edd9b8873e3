import Trampoline.Fault
import Trampoline.Files.Path

/-! Trees of files.

A folder lists its entries in any order. Everything the program reads from a disk it
reads from a tree, by a path from the tree's root or from the folder it works in. -/
namespace Trampoline

inductive Tree where
  | file (bytes : ByteArray)
  | folder (entries : List (String × Tree))

namespace Tree

/-- Why a path gives no folder or no text. -/
inductive Obstacle where
  | missing
  | notFolder
  | isFolder
  | longName
  | zeroByte
  | notText
  deriving DecidableEq, Repr

def Obstacle.message : Obstacle → String
  | .missing => "No such file or directory (os error 2)"
  | .notFolder => "Not a directory (os error 20)"
  | .isFolder => "Is a directory (os error 21)"
  | .longName => "File name too long (os error 36)"
  | .zeroByte => "file name contained an unexpected NUL byte"
  | .notText => "stream did not contain valid UTF-8"

/-- The fault of a path that cannot be read. -/
def Obstacle.fault (o : Obstacle) (path : String) : Fault :=
  ⟨.io (path ++ ": " ++ o.message), some { source := some path }⟩

/-- The most bytes a name may have. -/
def longestName : Nat := 255

/-- The most bytes a path may have. -/
def longestPath : Nat := 4095

def entries? : Tree → Option (List (String × Tree))
  | .file _ => none
  | .folder entries => some entries

/-- Follows names from a place in the tree; `above` are the folders it is in, innermost first.
Above the root is the root itself. -/
def follow (above : List Tree) (here : Tree) : List String → Except Obstacle Tree
  | [] => .ok here
  | name :: rest =>
    match here.entries? with
    | none => .error .notFolder
    | some entries =>
      if Path.isIdle name then follow above here rest
      else if name == ".." then
        match above with
        | [] => follow [] here rest
        | parent :: above => follow above parent rest
      else if longestName < name.utf8ByteSize then .error .longName
      else
        match entries.lookup name with
        | none => .error .missing
        | some next => follow (here :: above) next rest

mutual
/-- What is not a folder in a tree found at a path, with the names that lead there. Nothing can be
known of what only a path too long leads to, so it is no folder either, and cannot be read. -/
def leaves (path : String) : Tree → List (List String × Except Obstacle ByteArray)
  | .file bytes => [([], .ok bytes)]
  | .folder entries => leavesOf path entries

def leavesOf (path : String) : List (String × Tree) → List (List String × Except Obstacle ByteArray)
  | [] => []
  | (name, tree) :: rest =>
    let inner := Path.join path name
    let found :=
      if longestPath < inner.utf8ByteSize then [([], .error .longName)] else tree.leaves inner
    found.map (fun (names, leaf) => (name :: names, leaf)) ++ leavesOf path rest
end

/-- The text that bytes stand for. -/
def decode (bytes : ByteArray) : Except Obstacle String :=
  match String.fromUTF8? bytes with
  | some text => .ok text
  | none => .error .notText

/-- The tree with something put at the end of a path of names. Folders are made where there are
none, and a file in the way is replaced. -/
def put (t : Tree) : List String → Tree → Tree
  | [], new => new
  | name :: rest, new =>
    let entries := t.entries?.getD []
    let old := (entries.lookup name).getD (.folder [])
    .folder ((name, put old rest new) :: entries.filter fun (n, _) => n != name)

end Tree

/-- A tree, and the names of the folder that relative paths start from. -/
structure Files where
  root : Tree
  here : List String := []

namespace Files

open Trampoline.Tree (Obstacle)

/-- What a path leads to. -/
def find (f : Files) (path : String) : Except Obstacle Tree :=
  if path.toList.contains '\x00' then .error .zeroByte
  else if Tree.longestPath < path.utf8ByteSize then .error .longName
  else if path.isEmpty then .error .missing
  else
    let start := if Path.isAbsolute path then [] else f.here
    Tree.follow [] f.root (start ++ Path.pieces path)

/-- The text of a file. -/
def readText (f : Files) (path : String) : Except Obstacle String :=
  match f.find path with
  | .error o => .error o
  | .ok (.folder _) => .error .isFolder
  | .ok (.file bytes) => Tree.decode bytes

/-- The files with one more, at a path. -/
def put (f : Files) (path : String) (bytes : ByteArray) : Files :=
  { f with root := f.root.put (f.here ++ Path.resolved path) (.file bytes) }

end Files

end Trampoline
