import Trampoline.NameMap

/-! Typed argument values.

A value is a whole number of one of four widths, a binary floating-point number
kept as its bits, a text, a list of values, or a compound: a record of values by
name. Two floating-point values are the same exactly when their bits are, so a
value is equal to itself whatever it holds.

A record is a map from names, so its fields are sorted by name and there is one
field for each name. -/
namespace Trampoline

inductive Value where
  | byte (n : Int8)
  | short (n : Int16)
  | int (n : Int32)
  | long (n : Int64)
  | float (bits : UInt32)
  | double (bits : UInt64)
  | text (s : String)
  | list (items : List Value)
  | compound (fields : List (String × Value))

/-- The fields of a compound, sorted by name. -/
abbrev Record := NameMap Value

namespace Value

mutual
def same : Value → Value → Bool
  | .byte a, .byte b => a == b
  | .short a, .short b => a == b
  | .int a, .int b => a == b
  | .long a, .long b => a == b
  | .float a, .float b => a == b
  | .double a, .double b => a == b
  | .text a, .text b => a == b
  | .list a, .list b => sameItems a b
  | .compound a, .compound b => sameFields a b
  | _, _ => false

def sameItems : List Value → List Value → Bool
  | [], [] => true
  | a :: as, b :: bs => same a b && sameItems as bs
  | _, _ => false

def sameFields : List (String × Value) → List (String × Value) → Bool
  | [], [] => true
  | (k, a) :: as, (l, b) :: bs => k == l && same a b && sameFields as bs
  | _, _ => false
end

instance : BEq Value := ⟨same⟩

/-- The whole number a value holds, whatever its width. -/
def asLong : Value → Option Int
  | .byte n => some n.toInt
  | .short n => some n.toInt
  | .int n => some n.toInt
  | .long n => some n.toInt
  | _ => none

def asText : Value → Option String
  | .text s => some s
  | _ => none

def asCompound : Value → Option Record
  | .compound fields => some fields
  | _ => none

end Value

end Trampoline
