import Trampoline.Loading

/-! What the files of function texts are called.

A name is divided at its last dot, so such a file is one whose name is a stem, not empty, with the
extension (`isFunctionFile_iff`), and its id is made of the folders and the stem (`idOfNames_concat`).
A single dot does not count as a stem: two dots stand for it, and the file has the id of one whose
stem is two dots. Files come by the first name in which they differ (`inOrder_iff`). -/
namespace Trampoline

/-! ### Splitting at a character -/

namespace Text

variable {sep : Char} {cs a b : List Char}

theorem split_ne_nil (sep : Char) (cs : List Char) : split sep cs ≠ [] := by
  cases cs with
  | nil => simp [split, splitWhere]
  | cons c cs =>
    rw [split, splitWhere, List.foldr_cons]
    split
    · simp
    · split <;> simp

theorem split_cons_sep (sep : Char) (cs : List Char) : split sep (sep :: cs) = [] :: split sep cs := by
  simp [split, splitWhere]

theorem split_cons_of_ne {c : Char} (h : c ≠ sep) {piece : List Char} {pieces : List (List Char)}
    (hcs : split sep cs = piece :: pieces) : split sep (c :: cs) = (c :: piece) :: pieces := by
  rw [split, splitWhere] at hcs
  rw [split, splitWhere, List.foldr_cons, hcs]
  simp [h]

theorem split_append_sep (sep : Char) (a b : List Char) :
    split sep (a ++ sep :: b) = split sep a ++ split sep b := by
  induction a with
  | nil => exact split_cons_sep sep b
  | cons c a ih =>
    by_cases h : c = sep
    · subst h
      rw [List.cons_append, split_cons_sep, split_cons_sep, ih, List.cons_append]
    · obtain ⟨piece, pieces, ha⟩ := List.exists_cons_of_ne_nil (split_ne_nil sep a)
      rw [ha, List.cons_append] at ih
      rw [List.cons_append, split_cons_of_ne h ih, split_cons_of_ne h ha, List.cons_append]

theorem split_of_not_mem (h : sep ∉ cs) : split sep cs = [cs] := by
  induction cs with
  | nil => rfl
  | cons c cs ih =>
    rw [List.mem_cons, not_or] at h
    exact split_cons_of_ne (Ne.symm h.1) (ih h.2)

theorem intercalate_split (sep : Char) (cs : List Char) : [sep].intercalate (split sep cs) = cs := by
  induction cs with
  | nil => rfl
  | cons c cs ih =>
    obtain ⟨piece, pieces, hcs⟩ := List.exists_cons_of_ne_nil (split_ne_nil sep cs)
    by_cases h : c = sep
    · subst h
      rw [split_cons_sep, hcs, List.intercalate_cons_cons, ← hcs, ih]
      rfl
    · rw [hcs] at ih
      rw [split_cons_of_ne h hcs]
      cases pieces with
      | nil =>
        rw [List.intercalate_singleton] at ih ⊢
        rw [ih]
      | cons next pieces =>
        rw [List.intercalate_cons_cons] at ih ⊢
        rw [List.cons_append, List.cons_append, ih]

end Text

/-! ### Names -/

namespace Path

/-- A name is divided at its last dot, unless nothing stands in front of it. -/
theorem splitExtension_concat {stem extension : List Char} (h : '.' ∉ extension) :
    splitExtension (String.ofList (stem ++ '.' :: extension)) =
      if stem.isEmpty then none else some (String.ofList stem, String.ofList extension) := by
  have hsplit : (Text.split '.' (stem ++ '.' :: extension)).reverse =
      extension :: (Text.split '.' stem).reverse := by
    rw [Text.split_append_sep, Text.split_of_not_mem h, List.reverse_append]
    rfl
  have hpieces : (Text.split '.' stem).reverse.isEmpty = false := by
    rw [List.isEmpty_reverse, List.isEmpty_eq_false_iff]
    exact Text.split_ne_nil '.' stem
  rw [splitExtension, String.toList_ofList, hsplit]
  simp only [hpieces, List.reverse_reverse, Text.intercalate_split, Bool.false_or]

theorem splitExtension_of_not_mem {name : List Char} (h : '.' ∉ name) :
    splitExtension (String.ofList name) = none := by
  rw [splitExtension, String.toList_ofList, Text.split_of_not_mem h]
  rfl

theorem splitExtension_append {stem extension : String} (hstem : stem ≠ "")
    (h : '.' ∉ extension.toList) :
    splitExtension (stem ++ "." ++ extension) = some (stem, extension) := by
  have hname : stem ++ "." ++ extension =
      String.ofList (stem.toList ++ '.' :: extension.toList) := by
    rw [← String.toList_inj]
    simp
  have hne : stem.toList.isEmpty = false := by simpa using hstem
  rw [hname, splitExtension_concat h, hne]
  simp

/-- What a name is divided into. -/
theorem eq_append_of_splitExtension {name stem extension : String}
    (h : splitExtension name = some (stem, extension)) :
    stem ≠ "" ∧ name = stem ++ "." ++ extension := by
  obtain ⟨cs, rfl⟩ : ∃ cs, name = String.ofList cs := ⟨name.toList, String.ofList_toList.symm⟩
  by_cases hdot : '.' ∈ cs
  · obtain ⟨back, front, hcs, hback⟩ := List.eq_append_cons_of_mem (List.mem_reverse.mpr hdot)
    have hname : cs = front.reverse ++ '.' :: back.reverse := by
      rw [← List.reverse_reverse cs, hcs]
      simp
    have hlast : '.' ∉ back.reverse := fun hmem => hback (List.mem_reverse.mp hmem)
    rw [hname, splitExtension_concat hlast] at h
    split at h
    · cases h
    · next hfront =>
      cases h
      refine ⟨by simpa using hfront, ?_⟩
      rw [hname, ← String.toList_inj]
      simp
  · rw [splitExtension_of_not_mem hdot] at h
    cases h

end Path

namespace Library

/-- The files of function texts. -/
theorem isFunctionFile_iff (names : List String) :
    isFunctionFile names = true ↔
      ∃ folders stem, stem ≠ "" ∧ names = folders ++ [stem ++ "." ++ functionExtension] := by
  constructor
  · intro h
    rw [isFunctionFile] at h
    cases hlast : names.getLast? with
    | none =>
      rw [hlast] at h
      cases h
    | some name =>
      rw [hlast] at h
      obtain ⟨folders, hnames⟩ := List.getLast?_eq_some_iff.mp hlast
      cases hname : Path.splitExtension name with
      | none => simp [hname] at h
      | some parts =>
        obtain ⟨stem, extension⟩ := parts
        obtain ⟨hstem, heq⟩ := Path.eq_append_of_splitExtension hname
        have hextension : extension = functionExtension := by simpa [hname] using h
        exact ⟨folders, stem, hstem, by rw [hnames, heq, hextension]⟩
  · rintro ⟨folders, stem, hstem, rfl⟩
    have hname := Path.splitExtension_append hstem (by decide : '.' ∉ functionExtension.toList)
    rw [isFunctionFile, List.getLast?_concat]
    simp [hname]

/-- The id that the folders of a file and the last part of it name. -/
def spelledId (folders : List String) (last : String) : String :=
  match folders with
  | [] => Command.defaultNamespace ++ ":" ++ last
  | first :: rest => first ++ ":" ++ "/".intercalate (rest ++ [last])

/-- The stem as an id has it. -/
def spelledStem (stem : String) : String := if stem = "." then ".." else stem

theorem idOfNames_concat (folders : List String) {stem : String} (h : stem ≠ "") :
    idOfNames (folders ++ [stem ++ "." ++ functionExtension]) = spelledId folders (spelledStem stem) := by
  have hname := Path.splitExtension_append h (by decide : '.' ∉ functionExtension.toList)
  have hparts : nameParts (folders ++ [stem ++ "." ++ functionExtension]) =
      folders ++ [spelledStem stem] := by
    rw [nameParts, List.getLast?_concat]
    simp [hname, spelledStem]
  rw [idOfNames, hparts]
  cases folders with
  | nil => simp [spelledId]
  | cons first rest =>
    cases rest with
    | nil => rfl
    | cons second rest => rfl

/-- Two files of one folder with one id. -/
example : idOfNames ["demo", "..mcfunction"] = "demo:.." ∧
    idOfNames ["demo", "...mcfunction"] = "demo:.." := by decide

/-! ### Order -/

/-- The order of files is that of the first names in which they differ. -/
theorem inOrder_iff (a b : List String) :
    inOrder a b = true ↔ a = b ∨ List.Lex (fun x y => x < y) a b := by
  induction a generalizing b with
  | nil =>
    cases b with
    | nil => simp [inOrder]
    | cons y b => simp [inOrder]
  | cons x a ih =>
    cases b with
    | nil => simp [inOrder]
    | cons y b =>
      rw [inOrder]
      by_cases h : x = y
      · subst h
        rw [if_pos (beq_self_eq_true x), ih]
        constructor
        · rintro (rfl | hlex)
          · exact .inl rfl
          · exact .inr (.cons hlex)
        · rintro (heq | hlex)
          · exact .inl (List.cons.inj heq).2
          · cases hlex with
            | rel hlt => exact absurd hlt (String.lt_irrefl x)
            | cons hlex => exact .inr hlex
      · rw [beq_eq_false_iff_ne.mpr h]
        constructor
        · exact fun hlt => .inr (.rel (of_decide_eq_true hlt))
        · rintro (heq | hlex)
          · exact absurd (List.cons.inj heq).1 h
          · cases hlex with
            | rel hlt => exact decide_eq_true hlt
            | cons hlex => exact absurd rfl h

theorem inOrder_trans (a b c : List String) (h : inOrder a b = true) (h' : inOrder b c = true) :
    inOrder a c = true := by
  rw [inOrder_iff] at h h' ⊢
  rcases h with rfl | h
  · exact h'
  · rcases h' with rfl | h'
    · exact .inr h
    · exact .inr (List.lex_trans String.lt_trans h h')

theorem inOrder_total (a b : List String) : (inOrder a b || inOrder b a) = true := by
  induction a generalizing b with
  | nil => rfl
  | cons x a ih =>
    cases b with
    | nil => rfl
    | cons y b =>
      rw [inOrder, inOrder]
      by_cases h : x = y
      · simpa [h] using ih b
      · rw [beq_eq_false_iff_ne.mpr h, beq_eq_false_iff_ne.mpr (Ne.symm h)]
        by_cases hlt : x < y
        · exact Bool.or_eq_true_iff.mpr (.inl (decide_eq_true hlt))
        · by_cases hgt : y < x
          · exact Bool.or_eq_true_iff.mpr (.inr (decide_eq_true hgt))
          · exact absurd (String.le_antisymm (String.not_lt.mp hgt) (String.not_lt.mp hlt)) h

end Library

end Trampoline
