/-! Maps from names, kept as a list of entries sorted by name.

Names compare by code point, which is also the order of their UTF-8 bytes. Each
name has at most one entry, and the list is the map's only form, so two maps with
the same entries are the same map. -/
namespace Trampoline

abbrev NameMap (β : Type) := List (String × β)

namespace NameMap

/-- Puts an entry in its place; an entry of the same name gives way to it. -/
def insert (m : NameMap β) (name : String) (b : β) : NameMap β :=
  match m with
  | [] => [(name, b)]
  | (k, v) :: rest =>
    if name < k then (name, b) :: (k, v) :: rest
    else if name == k then (name, b) :: rest
    else (k, v) :: insert rest name b

def get? (m : NameMap β) (name : String) : Option β := List.lookup name m

def contains (m : NameMap β) (name : String) : Bool := (get? m name).isSome

def erase (m : NameMap β) (name : String) : NameMap β := m.filter fun (k, _) => k != name

def names (m : NameMap β) : List String := m.map Prod.fst

/-- Entries in any order; of two with one name the later stands. -/
def ofList (entries : List (String × β)) : NameMap β :=
  entries.foldl (fun m (k, v) => insert m k v) []

/-- Every name before the next. -/
def Sorted (m : NameMap β) : Prop := (names m).Pairwise (· < ·)

end NameMap

end Trampoline
