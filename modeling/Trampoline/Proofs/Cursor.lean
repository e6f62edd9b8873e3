import Trampoline.Cursor

/-! Moving a cursor on.

A cursor that has moved twice has moved by both (`skip_skip`), and what it passed over is cut out of
the text again (`upTo_skip`). The spaces it passes over are those at the beginning of its rest
(`rest_skipSpaces`). A valid cursor stands between two characters of its text (`Valid.isValid`). -/
namespace Trampoline.Cursor

variable {c : Cursor}

theorem length_skip (c : Cursor) (n : Nat) : (c.skip n).rest.length = c.rest.length - n :=
  List.length_drop

theorem skip_skip (c : Cursor) (m n : Nat) : (c.skip m).skip n = c.skip (m + n) := by
  simp only [skip, List.drop_drop, List.take_add, Text.width_append, Nat.add_assoc]

theorem upTo_skip (c : Cursor) (n : Nat) : c.upTo (c.skip n) = c.rest.take n := by
  simp only [upTo, skip, Nat.add_sub_cancel_left]
  have hcut := Text.cut_width (c.rest.take n) (c.rest.drop n)
  rw [List.take_append_drop] at hcut
  rw [hcut]

theorem length_skipSpaces_le (c : Cursor) : c.skipSpaces.rest.length ≤ c.rest.length := by
  rw [skipSpaces, length_skip]
  exact Nat.sub_le ..

theorem drop_length_takeWhile {α : Type} (p : α → Bool) (as : List α) :
    as.drop (as.takeWhile p).length = as.dropWhile p := by
  induction as with
  | nil => rfl
  | cons a as ih => by_cases h : p a <;> simp [h, ih]

theorem rest_skipSpaces (c : Cursor) : c.skipSpaces.rest = c.rest.dropWhile isSpace :=
  drop_length_takeWhile isSpace c.rest

theorem peek?_of_cons {ch : Char} {tail : List Char} (h : c.rest = ch :: tail) :
    c.peek? = some ch := by
  rw [peek?, h]
  rfl

theorem peek?_of_nil (h : c.rest = []) : c.peek? = none := by
  rw [peek?, h]
  rfl

theorem peek?_ne {ch : Char} (h : ∀ tail, c.rest = ch :: tail → False) : c.peek? ≠ some ch := by
  intro heq
  obtain ⟨tail, hrest⟩ := List.head?_eq_some_iff.mp heq
  exact h tail hrest

theorem rest_skip_one {ch : Char} {tail : List Char} (h : c.rest = ch :: tail) :
    (c.skip 1).rest = tail := by
  rw [skip, h]
  rfl

theorem skip_of_nil (h : c.rest = []) (n : Nat) : c.skip n = c := by
  obtain ⟨source, position, rest⟩ := c
  subst h
  simp [skip]

/-- Passing over spaces begins with the first of them. -/
theorem skipSpaces_of_space {tail : List Char} (h : c.rest = ' ' :: tail) :
    c.skipSpaces = (c.skip 1).skipSpaces := by
  rw [skipSpaces, skipSpaces, skip_skip, rest_skip_one h, h, List.takeWhile_cons_of_pos rfl, List.length_cons,
    Nat.add_comm]

theorem skipSpaces_of_peek (h : c.peek? ≠ some ' ') : c.skipSpaces = c := by
  have hnone : c.rest.takeWhile isSpace = [] := by
    rw [peek?] at h
    cases hrest : c.rest with
    | nil => rfl
    | cons ch tail =>
      rw [hrest] at h
      exact List.takeWhile_cons_of_neg (by simpa [isSpace] using h)
  rw [skipSpaces, hnone]
  rfl

/-- A valid cursor stands between two characters. -/
theorem Valid.isValid (hc : c.Valid) : (⟨c.position⟩ : String.Pos.Raw).IsValid c.source := by
  obtain ⟨read, hsource, hposition⟩ := hc
  rw [String.Pos.Raw.isValid_iff_exists_append]
  refine ⟨String.ofList read, String.ofList c.rest, ?_, ?_⟩
  · rw [← String.ofList_append, ← hsource, String.ofList_toList]
  · rw [hposition, ← String.toList_ofList (l := read), Text.width_toList, String.toList_ofList]
    rfl

theorem Valid.width_rest (hc : c.Valid) :
    c.position + Text.width c.rest = c.source.utf8ByteSize := by
  obtain ⟨read, hsource, hposition⟩ := hc
  rw [← Text.width_toList, hsource, Text.width_append, hposition]

end Trampoline.Cursor
