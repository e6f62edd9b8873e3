/-! Rounding a quotient to the nearest whole number.

Every place where a number loses digits goes through `nearest`: writing a binary
number with a fixed count of decimal places, and reading a decimal number into a
binary format. A quotient half way between two numbers goes to the even one. -/
namespace Trampoline.Decimal

def nearest (num den : Nat) : Nat :=
  let q := num / den
  let r := num % den
  if 2 * r < den then q
  else if den < 2 * r then q + 1
  else q + q % 2

/-- The rounded quotient is within half a unit of the exact one. -/
theorem nearest_within (num den : Nat) (h : 0 < den) :
    2 * num ≤ 2 * (den * nearest num den) + den ∧ 2 * (den * nearest num den) ≤ 2 * num + den := by
  have hdiv : den * (num / den) + num % den = num := Nat.div_add_mod num den
  have hmod : num % den < den := Nat.mod_lt num h
  have hsucc : den * (num / den + 1) = den * (num / den) + den := Nat.mul_succ ..
  simp only [nearest]
  split
  · omega
  · split
    · omega
    · have hpar : num / den % 2 = 0 ∨ num / den % 2 = 1 := by omega
      rcases hpar with hp | hp <;> rw [hp]
      · rw [Nat.add_zero]; omega
      · omega

/-- The quotient `num / den`, scaled by a power of two, rounded. -/
def nearestScaled (num den : Nat) : Int → Nat
  | .ofNat k => nearest (num * Nat.pow 2 k) den
  | .negSucc k => nearest num (den * Nat.pow 2 (k + 1))

end Trampoline.Decimal
