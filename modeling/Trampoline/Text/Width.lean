/-! Byte widths.

Positions in a text count the bytes of its UTF-8 form. A character takes one to
four of them, and a position is good only between two characters; `cut` divides
a text at the last good position at or below a given one. -/
namespace Trampoline.Text

/-- The bytes a list of characters takes. -/
def width (cs : List Char) : Nat := cs.foldl (fun n c => n + c.utf8Size) 0

theorem foldl_width (cs : List Char) (n : Nat) :
    cs.foldl (fun n c => n + c.utf8Size) n = n + width cs := by
  induction cs generalizing n with
  | nil => rfl
  | cons c rest ih =>
    simp only [width, List.foldl_cons, Nat.zero_add]
    rw [ih, ih c.utf8Size, Nat.add_assoc]

@[simp] theorem width_nil : width [] = 0 := rfl

@[simp] theorem width_cons (c : Char) (cs : List Char) : width (c :: cs) = c.utf8Size + width cs := by
  rw [width, List.foldl_cons, Nat.zero_add, foldl_width]

@[simp] theorem width_append (a b : List Char) : width (a ++ b) = width a + width b := by
  induction a with
  | nil => simp
  | cons c rest ih => simp [ih, Nat.add_assoc]

/-- The width of a text is the number of its bytes. -/
theorem width_toList (s : String) : width s.toList = s.utf8ByteSize := by
  have hchars : ∀ cs : List Char, width cs = (String.ofList cs).utf8ByteSize := by
    intro cs
    induction cs with
    | nil => rfl
    | cons c rest ih =>
      rw [width_cons, ih, String.ofList_cons, String.utf8ByteSize_append,
        String.utf8ByteSize_singleton]
  rw [hchars, String.ofList_toList]

/-- Characters move from `rest` to `taken` (newest first) while they fit into `n` bytes. -/
def cutFrom (n : Nat) (taken : List Char) : List Char → List Char × List Char
  | [] => (taken.reverse, [])
  | c :: rest =>
    if c.utf8Size ≤ n then cutFrom (n - c.utf8Size) (c :: taken) rest
    else (taken.reverse, c :: rest)

/-- The longest beginning of at most `n` bytes, and what follows it. -/
def cut (n : Nat) (cs : List Char) : List Char × List Char := cutFrom n [] cs

theorem cutFrom_append (n : Nat) (taken cs : List Char) :
    (cutFrom n taken cs).1 ++ (cutFrom n taken cs).2 = taken.reverse ++ cs := by
  induction cs generalizing n taken with
  | nil => simp [cutFrom]
  | cons c rest ih =>
    rw [cutFrom]
    split
    · rw [ih]; simp
    · rfl

/-- Cutting loses nothing. -/
theorem cut_append (n : Nat) (cs : List Char) : (cut n cs).1 ++ (cut n cs).2 = cs := by
  rw [cut, cutFrom_append, List.reverse_nil, List.nil_append]

theorem cutFrom_width (taken a b : List Char) :
    cutFrom (width a) taken (a ++ b) = (taken.reverse ++ a, b) := by
  induction a generalizing taken with
  | nil =>
    cases b with
    | nil => simp [cutFrom]
    | cons c b =>
      have hwide : ¬ c.utf8Size ≤ 0 := Nat.not_le_of_lt c.utf8Size_pos
      simp [cutFrom, hwide]
  | cons c a ih => simp [cutFrom, ih]

/-- A text is its longest beginning of so many bytes. -/
theorem cut_width (a b : List Char) : cut (width a) (a ++ b) = (a, b) := cutFrom_width [] a b

end Trampoline.Text
