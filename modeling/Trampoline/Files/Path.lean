import Trampoline.Text.Split

/-! Paths as text.

A path is names divided by slashes; an empty name and a single dot stay where they
are. A path that starts with a slash is absolute. -/
namespace Trampoline.Path

def pieces (path : String) : List String := (Text.split '/' path.toList).map String.ofList

def isAbsolute (path : String) : Bool := path.toList.head? == some '/'

/-- A name that leads nowhere else. -/
def isIdle (name : String) : Bool := name == "" || name == "."

/-- A path below another one. -/
def join (base rest : String) : String :=
  if base.isEmpty || base.toList.getLast? == some '/' then base ++ rest else base ++ "/" ++ rest

/-- Names without the idle ones at their end; the first name stays. -/
def dropIdle : List String → List String
  | [] => []
  | name :: rest => name :: (rest.reverse.dropWhile isIdle).reverse

/-- The names a path leads through, from where it starts; above that there is nothing. -/
def resolved (path : String) : List String :=
  (pieces path).foldl
    (fun names name =>
      if isIdle name then names else if name == ".." then names.dropLast else names ++ [name]) []

/-- The path of the folder that a file is in, empty if only the file's name is given. -/
def parent (path : String) : String :=
  match dropIdle (pieces path).dropLast with
  | [""] => "/"
  | names => "/".intercalate names

/-- A name divided at its last dot. A dot in front begins no extension. -/
def splitExtension (name : String) : Option (String × String) :=
  match (Text.split '.' name.toList).reverse with
  | extension :: rest =>
    let stem := ['.'].intercalate rest.reverse
    if rest.isEmpty || stem.isEmpty then none
    else some (String.ofList stem, String.ofList extension)
  | [] => none

end Trampoline.Path
