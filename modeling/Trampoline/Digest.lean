/-! A 64-bit digest of a byte string: SipHash with one compression round per word
and three finishing rounds, under the zero key.

The instances of a templated function are told apart by the digest of their
arguments, and it is part of their names, so its value is fixed here bit for bit.
Bytes are taken eight at a time, low byte first; the last word holds the bytes
left over and the length of the whole in its top byte. -/
namespace Trampoline.Digest

structure State where
  v0 : UInt64
  v1 : UInt64
  v2 : UInt64
  v3 : UInt64

def rotate (x : UInt64) (n : UInt64) : UInt64 := (x <<< n) ||| (x >>> (64 - n))

def round (s : State) : State :=
  let v0 := s.v0 + s.v1
  let v1 := rotate s.v1 13 ^^^ v0
  let v0 := rotate v0 32
  let v2 := s.v2 + s.v3
  let v3 := rotate s.v3 16 ^^^ v2
  let v0 := v0 + v3
  let v3 := rotate v3 21 ^^^ v0
  let v2 := v2 + v1
  let v1 := rotate v1 17 ^^^ v2
  let v2 := rotate v2 32
  ⟨v0, v1, v2, v3⟩

/-- The state of the zero key before any byte. -/
def start : State :=
  ⟨0x736f6d6570736575, 0x646f72616e646f6d, 0x6c7967656e657261, 0x7465646279746573⟩

def absorb (s : State) (word : UInt64) : State :=
  let s := round { s with v3 := s.v3 ^^^ word }
  { s with v0 := s.v0 ^^^ word }

def finish (s : State) : UInt64 :=
  let s := round (round (round { s with v2 := s.v2 ^^^ 0xff }))
  s.v0 ^^^ s.v1 ^^^ s.v2 ^^^ s.v3

/-- Bytes as a word, low byte first. -/
def word : List UInt8 → UInt64
  | [] => 0
  | b :: rest => b.toUInt64 ||| (word rest <<< 8)

/-- Whole words are absorbed as they come; the leftover bytes wait for the length. -/
def absorbAll (length : Nat) (s : State) : List UInt8 → State
  | b0 :: b1 :: b2 :: b3 :: b4 :: b5 :: b6 :: b7 :: rest =>
    absorbAll length (absorb s (word [b0, b1, b2, b3, b4, b5, b6, b7])) rest
  | tail => absorb s (word tail ||| (UInt64.ofNat length <<< 56))

def ofBytes (bytes : List UInt8) : UInt64 := finish (absorbAll bytes.length start bytes)

/-- A number as eight bytes, low byte first. -/
def wordBytes (n : UInt64) : List UInt8 :=
  (List.range 8).map fun i => (n >>> (8 * UInt64.ofNat i)).toUInt8

/-- A text as its UTF-8 bytes and one byte that no text contains. -/
def textBytes (s : String) : List UInt8 := s.toUTF8.toList ++ [0xff]

/-- A list of texts: their number, then each of them. -/
def textsBytes (texts : List String) : List UInt8 :=
  wordBytes (UInt64.ofNat texts.length) ++ texts.flatMap textBytes

def ofTexts (texts : List String) : UInt64 := ofBytes (textsBytes texts)

end Trampoline.Digest
