import Trampoline.Files.Tree
import Trampoline.Host

/-! Loading a folder of function texts.

Every file below the folder whose extension is the one of function texts is
compiled, in the order of the names that lead to it. The first of these names is
the function's namespace and the rest, without the extension, its name; a file
in the folder itself belongs to the default namespace. A file that does not
compile is reported and skipped, but one that cannot be read ends the loading. -/
namespace Trampoline

structure LoadReport where
  /-- The ids of the functions loaded, in order. -/
  loaded : List String := []
  faults : List Fault := []

namespace LoadReport

def isClean (r : LoadReport) : Bool := r.faults.isEmpty

end LoadReport

namespace Library

/-- The extension of function texts. -/
def functionExtension : String := "mcfunction"

def isFunctionFile (names : List String) : Bool :=
  match names.getLast? with
  | some name => (Path.splitExtension name).map Prod.snd == some functionExtension
  | none => false

/-- The names that lead to a file, without the extension of the last. A single dot is no name and
keeps the dot of the extension. -/
def nameParts (names : List String) : List String :=
  match names.getLast? with
  | none => []
  | some name =>
    let stem := ((Path.splitExtension name).map Prod.fst).getD name
    names.dropLast ++ [if stem == "." then ".." else stem]

/-- The id of the function in a file. -/
def idOfNames (names : List String) : String :=
  match nameParts names with
  | first :: second :: rest => first ++ ":" ++ "/".intercalate (second :: rest)
  | parts => Command.defaultNamespace ++ ":" ++ "/".intercalate parts

/-- Whether names come in order: by the first name that is different, and a folder before what is
in it. -/
def inOrder : List String → List String → Bool
  | [], _ => true
  | _ :: _, [] => false
  | a :: as, b :: bs => if a == b then inOrder as bs else a < b

/-- What is named like a function text below the folder at a path, in order. -/
def functionFiles (path : String) (folder : Tree) :
    List (List String × Except Tree.Obstacle ByteArray) :=
  ((folder.leaves path).filter fun (names, _) => isFunctionFile names).mergeSort fun a b =>
    inOrder a.1 b.1

/-- Compiles files one after the other; `root` is the path of their folder. -/
def loadFiles (root : String) (report : LoadReport) (l : Library) :
    List (List String × Except Tree.Obstacle ByteArray) → Except Fault LoadReport × Library
  | [] => (.ok report, l)
  | (names, leaf) :: rest =>
    let path := Path.join root ("/".intercalate names)
    match leaf.bind Tree.decode with
    | .error o => (.error (o.fault path), l)
    | .ok text =>
      match l.loadText (idOfNames names) text with
      | .ok (id, l) => loadFiles root { report with loaded := report.loaded ++ [id] } l rest
      | .error f =>
        let fault := { f with context := some ((f.context.getD {}).through path) }
        loadFiles root { report with faults := report.faults ++ [fault] } l rest

/-- Loads every function text below a folder. -/
def loadFolder (l : Library) (files : Files) (path : String) : Except Fault LoadReport × Library :=
  match files.find path with
  | .error o => (.error (o.fault path), l)
  | .ok (.file _) => (.error (Tree.Obstacle.fault .notFolder path), l)
  | .ok folder => loadFiles path {} l (functionFiles path folder)

end Library

end Trampoline
