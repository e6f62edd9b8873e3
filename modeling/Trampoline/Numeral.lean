/-! Whole numbers in text.

A numeral is an optional sign and one or more ASCII digits. It is read against a
range and refused outside of it; there is no grouping, no blank and no other
digit. `ofInt` and `ofNat` write the form without superfluous zeros or sign. -/
namespace Trampoline.Numeral

def ofNat (n : Nat) : List Char := Nat.toDigits 10 n

def ofInt : Int → List Char
  | .ofNat n => ofNat n
  | .negSucc n => '-' :: ofNat (n + 1)

/-- The value of a digit string, left where it is once it has passed `cap`. -/
def accumulate (cap : Nat) (digits : List Char) : Nat :=
  digits.foldl (fun v c => if cap < v then v else 10 * v + (c.toNat - '0'.toNat)) 0

/-- A digit string whose value is at most `cap`. -/
def readNat (cap : Nat) (cs : List Char) : Option Nat :=
  if cs.isEmpty || !cs.all Char.isDigit then none
  else
    let v := accumulate cap cs
    if v ≤ cap then some v else none

/-- A natural number, with at most a plus sign in front. -/
def readUnsigned (cap : Nat) : List Char → Option Nat
  | '+' :: rest => readNat cap rest
  | cs => readNat cap cs

/-- An integer of the two's complement range of `bits` bits. -/
def readSigned (bits : Nat) : List Char → Option Int
  | '-' :: rest => (readNat (Nat.pow 2 (bits - 1)) rest).map fun n => -(n : Int)
  | '+' :: rest => (readNat (Nat.pow 2 (bits - 1) - 1) rest).map Int.ofNat
  | cs => (readNat (Nat.pow 2 (bits - 1) - 1) cs).map Int.ofNat

def readInt8 (cs : List Char) : Option Int8 := (readSigned 8 cs).map Int8.ofInt
def readInt16 (cs : List Char) : Option Int16 := (readSigned 16 cs).map Int16.ofInt
def readInt32 (cs : List Char) : Option Int32 := (readSigned 32 cs).map Int32.ofInt
def readInt64 (cs : List Char) : Option Int64 := (readSigned 64 cs).map Int64.ofInt

/-- The decimal text of a number. -/
def text (n : Int) : String := String.ofList (ofInt n)

/-- Digits with zeros in front, at least `places` of them. -/
def padded (places n : Nat) : List Char :=
  let digits := ofNat n
  List.replicate (places - digits.length) '0' ++ digits

end Trampoline.Numeral
