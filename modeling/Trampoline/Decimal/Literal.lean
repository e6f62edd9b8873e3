import Trampoline.Decimal.Binary
import Trampoline.Numeral

/-! Decimal literals.

A literal is an optional sign, digits with at most one point among them, and
optionally `e` or `E` with a signed whole exponent; at least one digit must stand
before the exponent. It denotes the number of the format nearest to its exact
value. -/
namespace Trampoline.Decimal

/-- The parts of a literal: `digits * 10 ^ scale`, negated when `negative`. -/
structure Literal where
  negative : Bool
  digits : List Char
  scale : Int
  deriving DecidableEq, Repr

def digitsValue (digits : List Char) : Nat :=
  digits.foldl (fun v c => 10 * v + (c.toNat - '0'.toNat)) 0

/-- The last value at which an exponent takes one more digit; the digits after that are ignored. -/
def exponentCap : Nat := 65535

/-- The exponent after its mark: nothing at all, or `e` and a whole number. -/
def readExponent : List Char → Option Int
  | [] => some 0
  | mark :: rest =>
    if mark == 'e' || mark == 'E' then
      let (negative, digits) := match rest with
        | '-' :: ds => (true, ds)
        | '+' :: ds => (false, ds)
        | ds => (false, ds)
      if digits.isEmpty || !digits.all Char.isDigit then none
      else
        let n : Int := Numeral.accumulate exponentCap digits
        some (if negative then -n else n)
    else none

def readUnsignedLiteral (negative : Bool) (cs : List Char) : Option Literal :=
  let whole := cs.takeWhile Char.isDigit
  let (part, rest) := match cs.dropWhile Char.isDigit with
    | '.' :: after => (after.takeWhile Char.isDigit, after.dropWhile Char.isDigit)
    | after => ([], after)
  if whole.isEmpty && part.isEmpty then none
  else (readExponent rest).map fun e => ⟨negative, whole ++ part, e - part.length⟩

def readLiteral : List Char → Option Literal
  | '-' :: cs => readUnsignedLiteral true cs
  | '+' :: cs => readUnsignedLiteral false cs
  | cs => readUnsignedLiteral false cs

/-- Past this many decimal places on either side of the point every format is out of range. -/
def horizon : Nat := 2000

/-- How many digits of a literal count one by one. No number half way between two neighbours of a
format has as many, so of the digits after these it only matters whether one is not zero. -/
def keptDigits : Nat := 800

/-- The digits that count, with one digit for all those after them. -/
def Literal.shorten (l : Literal) : Literal :=
  let dropped := l.digits.drop keptDigits
  if dropped.isEmpty then l
  else
    { l with
      digits := l.digits.take keptDigits ++ [if dropped.all (· == '0') then '0' else '1']
      scale := l.scale + ((dropped.length - 1 : Nat) : Int) }

/-- The bits of the nearest number of a format. A literal far above or below the
range is infinite or zero without its power of ten being formed. -/
def Literal.bits (f : Format) (l : Literal) : Nat :=
  let l := Literal.shorten { l with digits := l.digits.dropWhile (· == '0') }
  let top : Int := l.scale + (l.digits.length : Int)
  let magnitude :=
    if l.digits.isEmpty || top < -(horizon : Int) then 0
    else if (horizon : Int) < top then f.infinity
    else match l.scale with
      | .ofNat k => ofRatio f (digitsValue l.digits * Nat.pow 10 k) 1
      | .negSucc k => ofRatio f (digitsValue l.digits) (Nat.pow 10 (k + 1))
  magnitude + (if l.negative then f.signBit else 0)

def readSingle (cs : List Char) : Option UInt32 :=
  (readLiteral cs).map fun l => UInt32.ofNat (l.bits .single)

def readDouble (cs : List Char) : Option UInt64 :=
  (readLiteral cs).map fun l => UInt64.ofNat (l.bits .double)

end Trampoline.Decimal
