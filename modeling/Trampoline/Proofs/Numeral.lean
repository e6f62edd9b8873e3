import Trampoline.Numeral

/-! Numerals that are written are read back.

The reader stops adding up digits once it has passed the cap. A numeral whose value is
not beyond the cap has no part that is (`foldl_capped`), so the value that is read is
that of the digits; and a whole number within the range it is read against comes back
(`readSigned_ofInt`). -/
namespace Trampoline.Numeral

/-- Digits make a number no smaller. -/
theorem le_ofDigitChars (digits : List Char) (n : Nat) : n ≤ Nat.ofDigitChars 10 digits n := by
  induction digits generalizing n with
  | nil => exact Nat.le_refl n
  | cons c rest ih =>
    rw [Nat.ofDigitChars_cons]
    exact Nat.le_trans (by omega) (ih _)

/-- The cap is not noticed on the way to a value that is not beyond it. -/
theorem foldl_capped {cap : Nat} (digits : List Char) (n : Nat)
    (h : Nat.ofDigitChars 10 digits n ≤ cap) :
    digits.foldl (fun v c => if cap < v then v else 10 * v + (c.toNat - '0'.toNat)) n =
      Nat.ofDigitChars 10 digits n := by
  induction digits generalizing n with
  | nil => rfl
  | cons c rest ih =>
    have hn : ¬cap < n := Nat.not_lt_of_le (Nat.le_trans (le_ofDigitChars (c :: rest) n) h)
    rw [Nat.ofDigitChars_cons] at h ⊢
    rw [List.foldl_cons, if_neg hn, ih _ h]

theorem isDigit_of_mem_ofNat {n : Nat} {c : Char} (h : c ∈ ofNat n) : c.isDigit = true :=
  Nat.isDigit_of_mem_toDigits (by decide) (by decide) h

theorem ofNat_ne_nil (n : Nat) : ofNat n ≠ [] := Nat.toDigits_ne_nil

/-- A numeral has no superfluous zero in front. -/
theorem head?_ofNat_ne_zero {n : Nat} (h : 0 < n) : (ofNat n).head? ≠ some '0' := by
  have hdigit : ∀ d < 10, 0 < d → d.digitChar ≠ '0' := by decide
  rw [ofNat]
  induction n using Nat.strongRecOn with
  | ind n ih =>
    rw [Nat.toDigits_eq_if (by decide)]
    split
    · next hlt => exact fun heq => hdigit n hlt h (Option.some.inj heq)
    · next hlt =>
      obtain ⟨d, ds, hds⟩ := List.exists_cons_of_ne_nil (@Nat.toDigits_ne_nil (n / 10) 10)
      have hhead := ih (n / 10) (by omega) (by omega)
      rw [hds] at hhead ⊢
      exact hhead

theorem readNat_ofNat {cap n : Nat} (h : n ≤ cap) : readNat cap (ofNat n) = some n := by
  have hvalue : Nat.ofDigitChars 10 (ofNat n) 0 = n := Nat.ofDigitChars_toDigits (by decide) (by decide)
  have hdigits : ((ofNat n).isEmpty || !(ofNat n).all Char.isDigit) = false := by
    rw [Bool.or_eq_false_iff, List.isEmpty_eq_false_iff, Bool.not_eq_false', List.all_eq_true]
    exact ⟨ofNat_ne_nil n, fun c hc => isDigit_of_mem_ofNat hc⟩
  have hread : accumulate cap (ofNat n) = n := by
    rw [accumulate, foldl_capped _ _ (by rw [hvalue]; exact h), hvalue]
  rw [readNat, hdigits, if_neg Bool.false_ne_true]
  simp only [hread, if_pos h]

/-- A numeral begins with a minus sign or a digit. -/
theorem ofInt_cases (n : Int) :
    (∃ k : Nat, n = k ∧ ofInt n = ofNat k) ∨ ∃ k : Nat, n = -((k : Int) + 1) ∧
      ofInt n = '-' :: ofNat (k + 1) := by
  cases n with
  | ofNat k => exact .inl ⟨k, rfl, rfl⟩
  | negSucc k => exact .inr ⟨k, Int.negSucc_eq k, rfl⟩

theorem mem_ofInt {n : Int} {c : Char} (h : c ∈ ofInt n) : c = '-' ∨ c.isDigit = true := by
  rcases ofInt_cases n with ⟨k, -, heq⟩ | ⟨k, -, heq⟩
  · exact .inr (isDigit_of_mem_ofNat (heq ▸ h))
  · rw [heq] at h
    exact (List.mem_cons.mp h).imp_right isDigit_of_mem_ofNat

/-- A numeral ends in a digit. -/
theorem exists_ofInt_eq_append (n : Int) : ∃ before c, ofInt n = before ++ [c] ∧ c.isDigit = true := by
  have hdigits : ∀ k, ∃ before c, ofNat k = before ++ [c] ∧ c.isDigit = true := fun k =>
    ⟨_, _, (List.dropLast_concat_getLast (ofNat_ne_nil k)).symm,
      isDigit_of_mem_ofNat (List.getLast_mem _)⟩
  rcases ofInt_cases n with ⟨k, -, heq⟩ | ⟨k, -, heq⟩
  · exact heq ▸ hdigits k
  · obtain ⟨before, c, hk, hc⟩ := hdigits (k + 1)
    exact ⟨'-' :: before, c, by rw [heq, hk]; rfl, hc⟩

/-- Digits have no sign in front. -/
theorem readSigned_digits {bits n : Nat} (h : n ≤ Nat.pow 2 (bits - 1) - 1) :
    readSigned bits (ofNat n) = some (n : Int) := by
  obtain ⟨c, rest, heq⟩ := List.exists_cons_of_ne_nil (ofNat_ne_nil n)
  have hc : c.isDigit = true := isDigit_of_mem_ofNat (heq ▸ List.mem_cons_self)
  unfold readSigned
  split
  · next hsign =>
    cases (List.cons.inj (heq.symm.trans hsign)).1
    exact absurd hc (by decide)
  · next hsign =>
    cases (List.cons.inj (heq.symm.trans hsign)).1
    exact absurd hc (by decide)
  · rw [readNat_ofNat h]
    rfl

/-- A number of the range is read back. -/
theorem readSigned_ofInt {bits : Nat} {n : Int} (hlow : -(Nat.pow 2 (bits - 1) : Nat) ≤ n)
    (hhigh : n < (Nat.pow 2 (bits - 1) : Nat)) : readSigned bits (ofInt n) = some n := by
  rcases ofInt_cases n with ⟨k, rfl, heq⟩ | ⟨k, rfl, heq⟩
  · rw [heq]
    exact readSigned_digits (by omega)
  · have hk : k + 1 ≤ Nat.pow 2 (bits - 1) := by omega
    rw [heq, readSigned, readNat_ofNat hk]
    rfl

theorem mem_of_readNat {cap n : Nat} {cs : List Char} (h : readNat cap cs = some n) :
    ∀ c ∈ cs, c.isDigit = true := by
  unfold readNat at h
  split at h
  · cases h
  · next hdigits =>
    rw [Bool.not_eq_true, Bool.or_eq_false_iff, Bool.not_eq_false'] at hdigits
    exact List.all_eq_true.mp hdigits.2

/-- A text that is read as a number has a sign and digits, and nothing else. -/
theorem mem_of_readSigned {bits : Nat} {cs : List Char} {n : Int} (h : readSigned bits cs = some n) :
    ∀ c ∈ cs, c = '-' ∨ c = '+' ∨ c.isDigit = true := by
  have hdigits : ∀ cap rest, (readNat cap rest).isSome → ∀ c ∈ rest,
      c = '-' ∨ c = '+' ∨ c.isDigit = true := by
    intro cap rest hread c hc
    obtain ⟨k, hk⟩ := Option.isSome_iff_exists.mp hread
    exact .inr (.inr (mem_of_readNat hk c hc))
  unfold readSigned at h
  split at h
  · next rest =>
    refine List.forall_mem_cons.mpr ⟨.inl rfl, hdigits (Nat.pow 2 (bits - 1)) rest ?_⟩
    cases hread : readNat (Nat.pow 2 (bits - 1)) rest with
    | none =>
      rw [hread] at h
      cases h
    | some k => rfl
  · next rest =>
    refine List.forall_mem_cons.mpr ⟨.inr (.inl rfl), hdigits (Nat.pow 2 (bits - 1) - 1) rest ?_⟩
    cases hread : readNat (Nat.pow 2 (bits - 1) - 1) rest with
    | none =>
      rw [hread] at h
      cases h
    | some k => rfl
  · refine hdigits (Nat.pow 2 (bits - 1) - 1) _ ?_
    cases hread : readNat (Nat.pow 2 (bits - 1) - 1) _ with
    | none =>
      rw [hread] at h
      cases h
    | some k => rfl

theorem readInt8_ofInt (n : Int8) : readInt8 (ofInt n.toInt) = some n := by
  rw [readInt8, readSigned_ofInt (by simpa using n.le_toInt) (by simpa using n.toInt_lt),
    Option.map_some, Int8.ofInt_toInt]

theorem readInt16_ofInt (n : Int16) : readInt16 (ofInt n.toInt) = some n := by
  rw [readInt16, readSigned_ofInt (by simpa using n.le_toInt) (by simpa using n.toInt_lt),
    Option.map_some, Int16.ofInt_toInt]

theorem readInt32_ofInt (n : Int32) : readInt32 (ofInt n.toInt) = some n := by
  rw [readInt32, readSigned_ofInt (by simpa using n.le_toInt) (by simpa using n.toInt_lt),
    Option.map_some, Int32.ofInt_toInt]

theorem readInt64_ofInt (n : Int64) : readInt64 (ofInt n.toInt) = some n := by
  rw [readInt64, readSigned_ofInt (by simpa using n.le_toInt) (by simpa using n.toInt_lt),
    Option.map_some, Int64.ofInt_toInt]

end Trampoline.Numeral
