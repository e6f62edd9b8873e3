import Trampoline.Decimal.Rounding

/-! Binary floating-point formats.

A number of a format is kept as its bits: a sign, an exponent field and a
fraction field. `decode` gives the exact value as a significand times a power of
two; `ofRatio` gives the bits of the format's number nearest to a quotient, and
infinity when the quotient lies beyond the largest number. -/
namespace Trampoline.Decimal

structure Format where
  /-- Bits of the fraction field. -/
  fraction : Nat
  /-- Bits of the exponent field. -/
  exponent : Nat

namespace Format

def single : Format := ⟨23, 8⟩
def double : Format := ⟨52, 11⟩

/-- The significand's leading bit, which is not stored. -/
def leading (f : Format) : Nat := Nat.pow 2 f.fraction

/-- The number of values the exponent field can have. -/
def exponents (f : Format) : Nat := Nat.pow 2 f.exponent

/-- The exponent of the smallest positive number, as a power of two. -/
def least (f : Format) : Int := 2 - (f.exponents / 2 : Nat) - f.fraction

/-- The bits of positive infinity. -/
def infinity (f : Format) : Nat := (f.exponents - 1) * f.leading

def signBit (f : Format) : Nat := f.exponents * f.leading

end Format

/-- What a bit pattern stands for. A finite number is `significand * 2 ^ exponent`. -/
inductive Reading where
  | nan
  | infinite (negative : Bool)
  | finite (negative : Bool) (significand : Nat) (exponent : Int)
  deriving DecidableEq, Repr

def decode (f : Format) (bits : Nat) : Reading :=
  let negative := bits / f.signBit % 2 == 1
  let field := bits / f.leading % f.exponents
  let fraction := bits % f.leading
  if field == f.exponents - 1 then
    if fraction == 0 then .infinite negative else .nan
  else if field == 0 then .finite negative fraction f.least
  else .finite negative (f.leading + fraction) (f.least + (field - 1 : Nat))

/-- The power of two at or just below `num / den`, for positive `num` and `den`. -/
def magnitude (num den : Nat) : Int :=
  let guess : Int := (num.log2 : Int) - den.log2
  let reached := match guess with
    | .ofNat k => decide (den * Nat.pow 2 k ≤ num)
    | .negSucc k => decide (den ≤ num * Nat.pow 2 (k + 1))
  if reached then guess else guess - 1

/-- The bits of the number nearest to `num / den`. -/
def ofRatio (f : Format) (num den : Nat) : Nat :=
  if num == 0 then 0
  else
    let e := max f.least (magnitude num den - f.fraction)
    let m := nearestScaled num den (-e)
    let bits :=
      if m < f.leading then m
      else ((e - f.least).toNat + 1) * f.leading + (m - f.leading)
    min bits f.infinity

/-- The nearest double to a finite reading divided by `den`, the sign left out. -/
def divided (significand : Nat) (exponent : Int) (den : Nat) : Nat :=
  match exponent with
  | .ofNat k => ofRatio .double (significand * Nat.pow 2 k) den
  | .negSucc k => ofRatio .double significand (den * Nat.pow 2 (k + 1))

end Trampoline.Decimal
