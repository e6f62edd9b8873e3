import Mathlib.Algebra.Order.Field.Basic
import Mathlib.Algebra.Order.Field.Power
import Mathlib.Algebra.Order.Field.Rat
import Mathlib.Data.List.DropRight
import Mathlib.Data.List.Induction
import Mathlib.Tactic.FieldSimp
import Mathlib.Tactic.Linarith
import Trampoline.Decimal.Fixed
import Trampoline.Proofs.Numeral

/-! The text of a double is a canonical decimal.

A plain decimal is a sign, whole digits and digits after the point, and denotes a rational number.
It is canonical when it has no superfluous zero at either end and at most fifteen digits after the
point. The magnitude of a finite number is rounded to so many units of the last place
(`abs_nearestScaled_sub`), these are written with all the places (`placed`), and dropping zeros
leaves a canonical decimal of the same value (`exists_canonical`). What is written is then within
half a unit of the exact value, and is that value itself where it is whole
(`plainDouble_canonical`). -/
namespace Trampoline.Numeral

/-! ### Digits -/

theorem exists_digitChar {d : Char} (h : d.isDigit = true) : ∃ k < 10, d = Nat.digitChar k := by
  obtain ⟨hlow, hhigh⟩ := Char.isDigit_iff_toNat.mp h
  have hbounds : 48 ≤ d.toNat ∧ d.toNat ≤ 57 := ⟨hlow, hhigh⟩
  refine ⟨d.toNat - 48, by omega, Char.toNat_inj.mp ?_⟩
  rw [Nat.toNat_digitChar_of_lt_ten (by omega)]
  omega

/-- Digits without a superfluous zero in front are the numeral of their value. -/
theorem ofNat_ofDigitChars {ds : List Char} (hne : ds ≠ []) (hdigits : ∀ d ∈ ds, d.isDigit = true)
    (hlead : ds.head? = some '0' → ds = ['0']) : ofNat (Nat.ofDigitChars 10 ds 0) = ds := by
  induction ds using List.reverseRecOn with
  | nil => exact absurd rfl hne
  | append_singleton front d ih =>
    obtain ⟨k, hk, rfl⟩ := exists_digitChar (hdigits d (by simp))
    rw [Nat.ofDigitChars_append, Nat.ofDigitChars_cons_digitChar_of_lt_ten hk, Nat.ofDigitChars_nil]
    by_cases hfront : front = []
    · subst hfront
      simp [ofNat, Nat.toDigits_of_lt_base hk]
    · obtain ⟨first, rest, rfl⟩ := List.exists_cons_of_ne_nil hfront
      have hfirst : first ≠ '0' := by
        rintro rfl
        simpa using hlead rfl
      have hvalue := ih hfront (fun d hd => hdigits d (List.mem_append_left _ hd))
        fun heq => absurd (Option.some.inj heq) hfirst
      have hpos : 0 < Nat.ofDigitChars 10 (first :: rest) 0 := by
        rw [Nat.pos_iff_ne_zero]
        intro hzero
        rw [hzero] at hvalue
        exact hfirst (List.cons.inj hvalue).1.symm
      rw [ofNat, ← Nat.toDigits_append_toDigits (by decide) hpos hk, ← ofNat, hvalue,
        Nat.toDigits_of_lt_base hk]

theorem ofDigitChars_lt {ds : List Char} (hdigits : ∀ d ∈ ds, d.isDigit = true) :
    Nat.ofDigitChars 10 ds 0 < 10 ^ ds.length := by
  induction ds using List.reverseRecOn with
  | nil => decide
  | append_singleton front d ih =>
    obtain ⟨k, hk, rfl⟩ := exists_digitChar (hdigits d (by simp))
    have hfront := ih fun d hd => hdigits d (List.mem_append_left _ hd)
    rw [Nat.ofDigitChars_append, Nat.ofDigitChars_cons_digitChar_of_lt_ten hk, Nat.ofDigitChars_nil,
      List.length_append, List.length_singleton, Nat.pow_succ]
    omega

/-- Digits of no value are zeros. -/
theorem eq_zero_of_ofDigitChars {ds : List Char} (hdigits : ∀ d ∈ ds, d.isDigit = true)
    (h : Nat.ofDigitChars 10 ds 0 = 0) : ∀ d ∈ ds, d = '0' := by
  induction ds using List.reverseRecOn with
  | nil => simp
  | append_singleton front d ih =>
    obtain ⟨k, hk, rfl⟩ := exists_digitChar (hdigits d (by simp))
    rw [Nat.ofDigitChars_append, Nat.ofDigitChars_cons_digitChar_of_lt_ten hk,
      Nat.ofDigitChars_nil] at h
    have hfront := ih (fun d hd => hdigits d (List.mem_append_left _ hd)) (by omega)
    obtain rfl : k = 0 := by omega
    simpa [or_imp, forall_and] using hfront

/-! Padded numerals. -/

theorem isDigit_of_mem_padded {places n : Nat} {d : Char} (h : d ∈ padded places n) :
    d.isDigit = true := by
  rcases List.mem_append.mp h with hzero | hdigit
  · rw [(List.mem_replicate.mp hzero).2]
    rfl
  · exact isDigit_of_mem_ofNat hdigit

theorem ofDigitChars_padded (places n : Nat) : Nat.ofDigitChars 10 (padded places n) 0 = n := by
  rw [padded, Nat.ofDigitChars_append, Nat.ofDigitChars_replicate_zero, Nat.mul_zero, ofNat,
    Nat.ofDigitChars_ten_toDigits]

theorem le_length_padded (places n : Nat) : places ≤ (padded places n).length := by
  rw [padded, List.length_append, List.length_replicate]
  omega

/-- A padded numeral that begins with a zero has no more digits than were asked for. -/
theorem length_padded_of_head? {places n : Nat} (hplaces : 0 < places)
    (h : (padded places n).head? = some '0') : (padded places n).length = places := by
  have hlength : (padded places n).length = places - (ofNat n).length + (ofNat n).length := by
    rw [padded, List.length_append, List.length_replicate]
  by_cases hlong : places ≤ (ofNat n).length
  · rw [padded, Nat.sub_eq_zero_of_le hlong, List.replicate_zero, List.nil_append] at h
    obtain rfl : n = 0 := by
      by_contra hn
      exact head?_ofNat_ne_zero (Nat.pos_of_ne_zero hn) h
    have hone : (ofNat 0).length = 1 := rfl
    omega
  · omega

end Trampoline.Numeral

namespace Trampoline.Decimal

/-! ### Plain decimals -/

/-- A sign, whole digits, and the digits after the point. -/
structure Plain where
  negative : Bool
  whole : List Char
  fraction : List Char

namespace Plain

/-- The digits, with a point between them if any come after it. -/
def digits (p : Plain) : List Char := p.whole ++ if p.fraction.isEmpty then [] else '.' :: p.fraction

def text (p : Plain) : List Char := signed p.negative p.digits

/-- The number the digits denote. -/
def magnitude (p : Plain) : ℚ := Nat.ofDigitChars 10 (p.whole ++ p.fraction) 0 / 10 ^ p.fraction.length

/-- The number the text denotes. -/
def value (p : Plain) : ℚ := (if p.negative then -1 else 1) * p.magnitude

/-- Digits on both sides, no superfluous zero at either end, and not too many places. -/
structure IsCanonical (p : Plain) : Prop where
  whole_ne : p.whole ≠ []
  isDigit : ∀ d ∈ p.whole ++ p.fraction, d.isDigit = true
  leading : p.whole.head? = some '0' → p.whole = ['0']
  places : p.fraction.length ≤ 15
  trailing : p.fraction.getLast? ≠ some '0'

variable {p : Plain}

/-- A canonical decimal of a whole number is that number's numeral. -/
theorem IsCanonical.whole_eq (h : p.IsCanonical) {n : Nat} (hn : p.magnitude = n) :
    p.fraction = [] ∧ p.whole = Numeral.ofNat n := by
  have hwhole : ∀ d ∈ p.whole, d.isDigit = true := fun d hd => h.isDigit d (List.mem_append_left _ hd)
  have hfraction : ∀ d ∈ p.fraction, d.isDigit = true :=
    fun d hd => h.isDigit d (List.mem_append_right _ hd)
  have hvalue : 10 ^ p.fraction.length * Nat.ofDigitChars 10 p.whole 0 +
      Nat.ofDigitChars 10 p.fraction 0 = 10 ^ p.fraction.length * n := by
    rw [magnitude, div_eq_iff (by positivity), Nat.ofDigitChars_append,
      Nat.ofDigitChars_eq_ofDigitChars_zero] at hn
    rw [Nat.mul_comm _ n]
    exact_mod_cast hn
  have hlt := Numeral.ofDigitChars_lt hfraction
  have hzero : Nat.ofDigitChars 10 p.fraction 0 = 0 := by
    have hmod := congrArg (· % 10 ^ p.fraction.length) hvalue
    simpa [Nat.mul_add_mod, Nat.mod_eq_of_lt hlt] using hmod
  constructor
  · by_contra hne
    have hlast := Numeral.eq_zero_of_ofDigitChars hfraction hzero _ (List.getLast_mem hne)
    exact h.trailing (by rw [List.getLast?_eq_getLast_of_ne_nil hne, hlast])
  · rw [hzero, Nat.add_zero] at hvalue
    rw [← Nat.eq_of_mul_eq_mul_left (by positivity) hvalue,
      Numeral.ofNat_ofDigitChars h.whole_ne hwhole h.leading]

end Plain

/-! ### Dropping zeros -/

variable {whole fraction : List Char}

/-- Only zeros after the point are dropped, and the point if nothing is left after it. -/
theorem dropZeros_point (hfraction : ∀ d ∈ fraction, d.isDigit = true) (negative : Bool) :
    dropZeros (whole ++ '.' :: fraction) =
      (⟨negative, whole, fraction.rdropWhile (· == '0')⟩ : Plain).digits := by
  have hreverse : (whole ++ '.' :: fraction).reverse = fraction.reverse ++ '.' :: whole.reverse := by
    simp
  rw [dropZeros, hreverse, List.dropWhile_append, Plain.digits, List.rdropWhile]
  cases hkept : fraction.reverse.dropWhile (· == '0') with
  | nil => simp
  | cons d ds =>
    have hmem : d ∈ fraction := by
      rw [← List.mem_reverse]
      exact (List.dropWhile_sublist _).subset (hkept ▸ List.mem_cons_self)
    have hpoint : d ≠ '.' := by
      rintro rfl
      exact absurd (hfraction '.' hmem) (by decide)
    simp only [List.isEmpty_cons, Bool.false_eq_true, if_false, List.cons_append]
    split
    · next heq => exact absurd (List.cons.inj heq).1 hpoint
    · simp

/-- The zeros at the end do not count. -/
theorem magnitude_rdropWhile (negative : Bool) (whole fraction : List Char) :
    (⟨negative, whole, fraction.rdropWhile (· == '0')⟩ : Plain).magnitude =
      (⟨negative, whole, fraction⟩ : Plain).magnitude := by
  obtain ⟨k, hzeros⟩ : ∃ k, fraction.rtakeWhile (· == '0') = List.replicate k '0' :=
    ⟨_, List.eq_replicate_of_mem fun d hd => by simpa using List.mem_rtakeWhile_imp hd⟩
  have hsplit : fraction.rdropWhile (· == '0') ++ List.replicate k '0' = fraction := by
    rw [← hzeros, List.rdropWhile_append_rtakeWhile]
  generalize fraction.rdropWhile (· == '0') = kept at hsplit
  subst hsplit
  have hdigits : Nat.ofDigitChars 10 (whole ++ (kept ++ List.replicate k '0')) 0 =
      10 ^ k * Nat.ofDigitChars 10 (whole ++ kept) 0 := by
    rw [← List.append_assoc, Nat.ofDigitChars_append, Nat.ofDigitChars_replicate_zero]
  simp only [Plain.magnitude, hdigits, List.length_append, List.length_replicate, pow_add]
  push_cast
  field_simp

/-- So many units of the last place, written out without the zeros at the end. -/
theorem exists_canonical (negative : Bool) (n : Nat) :
    ∃ p : Plain, p.negative = negative ∧ p.IsCanonical ∧
      dropZeros (placed argumentPlaces n) = p.digits ∧ p.magnitude = n / 10 ^ argumentPlaces := by
  have hdigit : ∀ d ∈ Numeral.padded (argumentPlaces + 1) n, d.isDigit = true :=
    fun _ hd => Numeral.isDigit_of_mem_padded hd
  have hlength := Numeral.le_length_padded (argumentPlaces + 1) n
  have hhead := @Numeral.length_padded_of_head? (argumentPlaces + 1) n (Nat.succ_pos _)
  have hvalue := Numeral.ofDigitChars_padded (argumentPlaces + 1) n
  rw [placed]
  generalize Numeral.padded (argumentPlaces + 1) n = digits at *
  obtain ⟨first, rest, rfl⟩ : ∃ first rest, digits = first :: rest := by
    cases digits with
    | nil => simp at hlength
    | cons first rest => exact ⟨first, rest, rfl⟩
  obtain ⟨count, hcount⟩ : ∃ count, (first :: rest).length - argumentPlaces = count + 1 :=
    ⟨(first :: rest).length - argumentPlaces - 1, by omega⟩
  rw [hcount]
  have hplaces : ((first :: rest).drop (count + 1)).length = argumentPlaces := by
    rw [List.length_drop]
    omega
  have hkept := List.rdropWhile_prefix (· == '0') (l := (first :: rest).drop (count + 1))
  refine ⟨⟨negative, (first :: rest).take (count + 1),
    ((first :: rest).drop (count + 1)).rdropWhile (· == '0')⟩, rfl, ⟨?_, ?_, ?_, ?_, ?_⟩, ?_, ?_⟩
  · simp
  · intro d hd
    rcases List.mem_append.mp hd with hd | hd
    · exact hdigit d (List.mem_of_mem_take hd)
    · exact hdigit d (List.mem_of_mem_drop (hkept.subset hd))
  · intro hzero
    have hlen := hhead (by simpa using hzero)
    obtain rfl : count = 0 := by omega
    simpa using hzero
  · exact hkept.length_le.trans hplaces.le
  · intro hlast
    obtain ⟨hne, hzero⟩ := List.mem_getLast?_eq_getLast hlast
    exact List.rdropWhile_last_not _ _ hne (by rw [← hzero]; rfl)
  · exact dropZeros_point (fun d hd => hdigit d (List.mem_of_mem_drop hd)) negative
  · rw [magnitude_rdropWhile, Plain.magnitude, List.take_append_drop, hvalue, hplaces]

/-! ### Rounding -/

theorem abs_nearest_sub (num : Nat) {den : Nat} (h : 0 < den) :
    |(nearest num den : ℚ) - num / den| ≤ 1 / 2 := by
  obtain ⟨hlow, hhigh⟩ := nearest_within num den h
  have hden : (0 : ℚ) < den := by exact_mod_cast h
  have hlow' : (2 * num : ℚ) ≤ 2 * (den * nearest num den) + den := by exact_mod_cast hlow
  have hhigh' : (2 * (den * nearest num den) : ℚ) ≤ 2 * num + den := by exact_mod_cast hhigh
  have hnum : (den : ℚ) * (num / den) = num := by field_simp
  rw [abs_le]
  constructor
  · refine le_of_mul_le_mul_left ?_ hden
    rw [mul_sub, hnum]
    linarith
  · refine le_of_mul_le_mul_left ?_ hden
    rw [mul_sub, hnum]
    linarith

/-- A scaled number is rounded to within half a unit. -/
theorem abs_nearestScaled_sub (num : Nat) (e : Int) :
    |(nearestScaled num 1 e : ℚ) - num * 2 ^ e| ≤ 1 / 2 := by
  cases e with
  | ofNat k => simpa [nearestScaled] using abs_nearest_sub (num * Nat.pow 2 k) Nat.one_pos
  | negSucc k =>
    simpa [nearestScaled, div_eq_mul_inv, zpow_negSucc] using
      abs_nearest_sub num (Nat.pow_pos (n := k + 1) Nat.two_pos)

/-- So many units of the last place are within half a unit of a whole number only if they are it. -/
theorem eq_of_abs_sub_le {units n places : Nat}
    (h : |(units : ℚ) / 10 ^ places - n| ≤ 1 / 2 / 10 ^ places) :
    (units : ℚ) / 10 ^ places = n := by
  have hunit : (0 : ℚ) < 10 ^ places := by positivity
  have hscale : (units : ℚ) / 10 ^ places - n = ((units - n * 10 ^ places : ℤ) : ℚ) / 10 ^ places := by
    push_cast
    field_simp
  rw [hscale, abs_div, abs_of_pos hunit, div_le_div_iff_of_pos_right hunit] at h
  have hsmall : |(units - n * 10 ^ places : ℤ)| < 1 := by
    have hhalf : ((|(units - n * 10 ^ places : ℤ)| : ℤ) : ℚ) < 1 := by
      rw [Int.cast_abs]
      linarith
    exact_mod_cast hhalf
  rw [← sub_eq_zero, hscale, Int.abs_lt_one_iff.mp hsmall, Int.cast_zero, zero_div]

/-! ### Finite numbers -/

/-- The text of a finite number is a canonical decimal, its digits within half a unit of the last
place of the magnitude. -/
theorem exists_plain_finite (negative : Bool) (m : Nat) (e : Int) :
    ∃ p : Plain, plain (.finite negative m e) = p.text ∧ p.IsCanonical ∧ p.negative = negative ∧
      (∃ n : Nat, p.magnitude = n / 10 ^ argumentPlaces) ∧
      |p.magnitude - m * 2 ^ e| ≤ 1 / 2 / 10 ^ argumentPlaces := by
  obtain ⟨p, rfl, hcanonical, hdigits, hmagnitude⟩ := exists_canonical negative
    (nearestScaled (m * Nat.pow 10 argumentPlaces) 1 e)
  refine ⟨p, ?_, hcanonical, rfl, ⟨_, hmagnitude⟩, ?_⟩
  · rw [plain, fixed, hdigits, Plain.text]
  · have hround := abs_nearestScaled_sub (m * Nat.pow 10 argumentPlaces) e
    have hunit : (0 : ℚ) < 10 ^ argumentPlaces := by positivity
    have hscale : p.magnitude - m * 2 ^ e =
        (nearestScaled (m * Nat.pow 10 argumentPlaces) 1 e -
          (m * Nat.pow 10 argumentPlaces : Nat) * 2 ^ e) / 10 ^ argumentPlaces := by
      rw [hmagnitude, Nat.pow_eq]
      push_cast
      field_simp
    rw [hscale, abs_div, abs_of_pos hunit]
    exact div_le_div_of_nonneg_right hround hunit.le

/-! ### Doubles -/

/-- The sign bit of a double. -/
def isNegative (bits : UInt64) : Bool := decide (2 ^ 63 ≤ bits.toNat)

/-- The exponent field of a double, all ones for the infinities and what is no number. -/
def exponentField (bits : UInt64) : Nat := bits.toNat / 2 ^ 52 % 2 ^ 11

def fractionField (bits : UInt64) : Nat := bits.toNat % 2 ^ 52

def IsFinite (bits : UInt64) : Prop := exponentField bits ≠ 2 ^ 11 - 1

instance (bits : UInt64) : Decidable (IsFinite bits) :=
  inferInstanceAs (Decidable (exponentField bits ≠ 2 ^ 11 - 1))

/-- The number a finite double stands for. -/
def exact (bits : UInt64) : ℚ :=
  (if isNegative bits then -1 else 1) *
    if exponentField bits = 0 then (fractionField bits : ℚ) * 2 ^ (-1074 : ℤ)
    else (2 ^ 52 + fractionField bits : ℚ) * 2 ^ ((exponentField bits : ℤ) - 1075)

/-- A finite double is read as the number it stands for. -/
theorem decode_double {bits : UInt64} (h : IsFinite bits) :
    ∃ m e, decode .double bits.toNat = .finite (isNegative bits) m e ∧
      exact bits = (if isNegative bits then -1 else 1) * (m * 2 ^ e) := by
  have hsign : (bits.toNat / Format.double.signBit % 2 == 1) = isNegative bits := by
    have hlt := bits.toNat_lt
    rw [isNegative, Bool.eq_iff_iff, beq_iff_eq, decide_eq_true_iff]
    simp only [Format.double, Format.signBit, Format.exponents, Format.leading, Nat.pow_eq]
    omega
  have hfield : bits.toNat / Format.double.leading % Format.double.exponents = exponentField bits :=
    rfl
  have hfraction : bits.toNat % Format.double.leading = fractionField bits := rfl
  have hlast : (exponentField bits == Format.double.exponents - 1) = false := by
    rw [beq_eq_false_iff_ne]
    exact h
  have hleast : Format.double.least = -1074 := rfl
  rw [decode, hsign, hfield, hfraction, hlast]
  by_cases hzero : exponentField bits = 0
  · refine ⟨fractionField bits, -1074, ?_, ?_⟩
    · simp [hzero, hleast]
    · simp [exact, hzero]
  · refine ⟨Format.double.leading + fractionField bits, -1074 + (exponentField bits - 1 : Nat), ?_, ?_⟩
    · simp [hzero, hleast]
    · have hpower : ((-1074 : ℤ) + (exponentField bits - 1 : Nat)) = (exponentField bits : ℤ) - 1075 := by
        omega
      have hleading : ((Format.double.leading + fractionField bits : Nat) : ℚ) =
          2 ^ 52 + fractionField bits := by
        rw [show Format.double.leading = 2 ^ 52 from rfl]
        push_cast
        rfl
      rw [exact, if_neg hzero, hpower, hleading]

theorem head?_text {p : Plain} (h : p.IsCanonical) : p.text.head? = some '-' ↔ p.negative = true := by
  obtain ⟨d, rest, hwhole⟩ := List.exists_cons_of_ne_nil h.whole_ne
  have hd : d ≠ '-' := by
    rintro rfl
    exact absurd (h.isDigit '-' (by simp [hwhole])) (by decide)
  cases hneg : p.negative <;> simp [Plain.text, Plain.digits, signed, hneg, hwhole, hd]

/-- A finite double is written as a canonical decimal with its sign, a whole number of units of the
fifteenth place, at most half of one away from the number itself; and a whole number is written as
its numeral. -/
theorem plainDouble_canonical (bits : UInt64) (h : IsFinite bits) :
    ∃ p : Plain, plainDouble bits = p.text ∧ p.IsCanonical ∧
      (p.text.head? = some '-' ↔ isNegative bits = true) ∧
      (∃ n : ℤ, p.value = n / 10 ^ 15) ∧
      |p.value - exact bits| ≤ 1 / 2 / 10 ^ 15 ∧
      ∀ n : ℤ, exact bits = n → p.text = signed (isNegative bits) (Numeral.ofNat n.natAbs) := by
  obtain ⟨m, e, hdecode, hexact⟩ := decode_double h
  obtain ⟨p, htext, hcanonical, hnegative, ⟨units, hunits⟩, hnear⟩ :=
    exists_plain_finite (isNegative bits) m e
  have hone : |(if isNegative bits then -1 else 1 : ℚ)| = 1 := by
    split <;> simp
  refine ⟨p, ?_, hcanonical, ?_, ?_, ?_, ?_⟩
  · rw [plainDouble, hdecode, htext]
  · rw [head?_text hcanonical, hnegative]
  · refine ⟨(if p.negative then -1 else 1) * units, ?_⟩
    rw [Plain.value, hunits]
    push_cast
    rw [mul_div_assoc]
    rfl
  · rw [Plain.value, hnegative, hexact, ← mul_sub, abs_mul]
    rw [hone, one_mul]
    exact hnear
  · intro n hn
    have hmagnitude : (m * 2 ^ e : ℚ) = n.natAbs := by
      have hpos : (0 : ℚ) ≤ m * 2 ^ e := by positivity
      rw [Nat.cast_natAbs, Int.cast_abs, ← hn, hexact, abs_mul, hone, one_mul, abs_of_nonneg hpos]
    rw [hmagnitude, hunits] at hnear
    have hwhole : p.magnitude = n.natAbs := by
      rw [hunits]
      exact eq_of_abs_sub_le hnear
    obtain ⟨hfraction, hdigits⟩ := hcanonical.whole_eq hwhole
    simp [Plain.text, Plain.digits, hfraction, hdigits, hnegative]

/-- The double nearest to -1e23 is written with all its digits. -/
theorem plainDouble_canonical_large :
    IsFinite 0xc4b52d02c7e14af6 ∧
      exact 0xc4b52d02c7e14af6 = ((-99999999999999991611392 : ℤ) : ℚ) ∧
      ∃ p : Plain, plainDouble 0xc4b52d02c7e14af6 = p.text ∧ p.IsCanonical ∧
        |p.value - exact 0xc4b52d02c7e14af6| ≤ 1 / 2 / 10 ^ 15 ∧
        p.text = "-99999999999999991611392".toList := by
  have hfinite : IsFinite 0xc4b52d02c7e14af6 := by decide
  have hexact : exact 0xc4b52d02c7e14af6 = ((-99999999999999991611392 : ℤ) : ℚ) := by
    have hnegative : isNegative 0xc4b52d02c7e14af6 = true := by decide
    have hfield : exponentField 0xc4b52d02c7e14af6 = 1099 := by decide
    have hfraction : fractionField 0xc4b52d02c7e14af6 = 1456864850168566 := by decide
    rw [exact, hnegative, hfield, hfraction]
    norm_num
  obtain ⟨p, htext, hcanonical, -, -, hnear, hwhole⟩ := plainDouble_canonical _ hfinite
  exact ⟨hfinite, hexact, p, htext, hcanonical, hnear, (hwhole _ hexact).trans (by decide)⟩

/-- A digit that rounds up carries through all the places. -/
example : plainDouble 0xbfeffffffffffffd = "-1".toList := by decide

end Trampoline.Decimal
