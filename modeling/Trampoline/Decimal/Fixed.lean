import Trampoline.Decimal.Binary
import Trampoline.Numeral

/-! Decimal text of binary numbers.

`fixed` writes the exact value with a fixed count of places, the last one rounded.
`plain` is the form used for arguments: fifteen places, then the zeros at the end
and a point left bare are dropped, so a whole number is written as its digits
and no number is written with an exponent. -/
namespace Trampoline.Decimal

/-- `n` units of the last of `places` places. -/
def placed (places n : Nat) : List Char :=
  let digits := Numeral.padded (places + 1) n
  let whole := digits.length - places
  digits.take whole ++ '.' :: digits.drop whole

/-- The magnitude `significand * 2 ^ exponent` with exactly `places` places, `places` positive. -/
def fixed (places significand : Nat) (exponent : Int) : List Char :=
  placed places (nearestScaled (significand * Nat.pow 10 places) 1 exponent)

/-- Without the zeros at the end, nor a point that ends up there. -/
def dropZeros (cs : List Char) : List Char :=
  match cs.reverse.dropWhile (· == '0') with
  | '.' :: rest => rest.reverse
  | rest => rest.reverse

/-- The places of an argument's text. -/
def argumentPlaces : Nat := 15

def signed (negative : Bool) (cs : List Char) : List Char := if negative then '-' :: cs else cs

def plain : Reading → List Char
  | .nan => "NaN".toList
  | .infinite negative => signed negative "Infinity".toList
  | .finite negative m e => signed negative (dropZeros (fixed argumentPlaces m e))

def plainSingle (bits : UInt32) : List Char := plain (decode .single bits.toNat)
def plainDouble (bits : UInt64) : List Char := plain (decode .double bits.toNat)

end Trampoline.Decimal
