import Trampoline.Value.Basic
import Trampoline.Digest

/-! The bytes of a value, as they enter its digest.

A value is its kind as a word, then its content: a number low byte first, a text
ended by a byte no text contains, a list with its length in front. A compound's
fields follow one another without a count, so a field moved out of an inner
compound into the one around it can leave the bytes as they were. -/
namespace Trampoline.Value

/-- The lowest `count` bytes of a word. -/
def lowBytes (count : Nat) (n : UInt64) : List UInt8 := (Digest.wordBytes n).take count

def kind : Value → UInt64
  | .byte _ => 0
  | .short _ => 1
  | .int _ => 2
  | .long _ => 3
  | .float _ => 4
  | .double _ => 5
  | .text _ => 6
  | .list _ => 7
  | .compound _ => 8

mutual
def bytes : Value → List UInt8
  | v@(.byte n) => Digest.wordBytes v.kind ++ [n.toUInt8]
  | v@(.short n) => Digest.wordBytes v.kind ++ lowBytes 2 n.toUInt16.toUInt64
  | v@(.int n) => Digest.wordBytes v.kind ++ lowBytes 4 n.toUInt32.toUInt64
  | v@(.long n) => Digest.wordBytes v.kind ++ Digest.wordBytes n.toUInt64
  | v@(.float bits) => Digest.wordBytes v.kind ++ lowBytes 4 bits.toUInt64
  | v@(.double bits) => Digest.wordBytes v.kind ++ Digest.wordBytes bits
  | v@(.text s) => Digest.wordBytes v.kind ++ Digest.textBytes s
  | v@(.list items) =>
    Digest.wordBytes v.kind ++ Digest.wordBytes (UInt64.ofNat items.length) ++ itemsBytes items
  | v@(.compound fields) => Digest.wordBytes v.kind ++ fieldsBytes fields

def itemsBytes : List Value → List UInt8
  | [] => []
  | v :: rest => bytes v ++ itemsBytes rest

def fieldsBytes : List (String × Value) → List UInt8
  | [] => []
  | (k, v) :: rest => Digest.textBytes k ++ bytes v ++ fieldsBytes rest
end

def digest (v : Value) : UInt64 := Digest.ofBytes (bytes v)

end Trampoline.Value
