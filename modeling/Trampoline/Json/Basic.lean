/-! JSON values.

A text is kept as its code points, because an escape can name half of a surrogate
pair, which no character is. Such a text is still well formed, but `string?` does
not give it. A number is kept as it is written, and an object keeps its fields in
order, those with the same key as well. -/
namespace Trampoline

inductive Json where
  | null
  | bool (b : Bool)
  | number (literal : List Char)
  | text (points : List Nat)
  | array (items : List Json)
  | object (fields : List (List Nat × Json))

namespace Json

def isHigh (n : Nat) : Bool := 0xD800 ≤ n && n < 0xDC00

def isLow (n : Nat) : Bool := 0xDC00 ≤ n && n < 0xE000

def isSurrogate (n : Nat) : Bool := isHigh n || isLow n

/-- The code points of a text. -/
def points (s : String) : List Nat := s.toList.map Char.toNat

/-- The text of some code points, if each of them is a character. -/
def ofPoints? (ns : List Nat) : Option String :=
  if ns.any isSurrogate then none else some (String.ofList (ns.map Char.ofNat))

def string (s : String) : Json := .text (points s)

def string? : Json → Option String
  | .text ns => ofPoints? ns
  | _ => none

def bool? : Json → Option Bool
  | .bool b => some b
  | _ => none

/-- The first field of an object with a key. -/
def field? (key : String) : Json → Option Json
  | .object fields => (fields.find? fun f => f.1 == points key).map Prod.snd
  | _ => none

end Json

end Trampoline
