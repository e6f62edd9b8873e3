import Trampoline.Json.Printer
import Trampoline.Proofs.Json.Grammar
import Trampoline.Proofs.Numeral

/-! What is written of a JSON value is that value in the grammar, and is read back.

A value is printable when its numbers are numbers of the grammar and the code points of its texts
are characters. Both written forms, the one without blanks and the one over several lines, are
documents of the value (`isValue_write`, `isValue_pretty`). The one without blanks is also one line
(`not_mem_write`): within a text a line feed is always escaped. -/
namespace Trampoline.Json

mutual
/-- Numbers are numbers, and texts are made of characters. -/
def Printable : Json → Prop
  | .null => True
  | .bool _ => True
  | .number literal => IsNumber literal
  | .text points => ∀ n ∈ points, n.isValidChar
  | .array items => PrintableItems items
  | .object fields => PrintableFields fields

def PrintableItems : List Json → Prop
  | [] => True
  | item :: rest => Printable item ∧ PrintableItems rest

def PrintableFields : List (List Nat × Json) → Prop
  | [] => True
  | (key, v) :: rest => (∀ n ∈ key, n.isValidChar) ∧ Printable v ∧ PrintableFields rest
end

/-! ### Numbers -/

theorem isWhole_ofNat (n : Nat) : IsWhole (Numeral.ofNat n) := by
  have hdigits : ∀ c ∈ Numeral.ofNat n, c.isDigit = true :=
    fun c hc => Numeral.isDigit_of_mem_ofNat hc
  by_cases hn : n = 0
  · subst hn
    exact .zero
  · cases hcs : Numeral.ofNat n with
    | nil => exact absurd hcs (Numeral.ofNat_ne_nil n)
    | cons first cs =>
      refine .digits ?_ ⟨List.cons_ne_nil _ _, hcs ▸ hdigits⟩
      rintro rfl
      exact Numeral.head?_ofNat_ne_zero (Nat.pos_of_ne_zero hn) (by rw [hcs]; rfl)

theorem isMagnitude_ofNat (n : Nat) : IsMagnitude (Numeral.ofNat n) := by
  simpa using IsMagnitude.mk (isWhole_ofNat n) .none .none

theorem printable_nat (n : Nat) : (nat n).Printable := by
  rw [nat, Printable]
  exact .positive (isMagnitude_ofNat n)

theorem printable_int (n : Int) : (int n).Printable := by
  rw [int, Printable]
  cases n with
  | ofNat n => exact .positive (isMagnitude_ofNat n)
  | negSucc n => exact .negative (isMagnitude_ofNat (n + 1))

/-! ### Texts -/

/-- The code points of a text are characters. -/
theorem isValidChar_of_mem_points {s : String} {n : Nat} (h : n ∈ points s) : n.isValidChar := by
  obtain ⟨c, -, rfl⟩ := List.mem_map.mp h
  exact c.valid

theorem printable_string (s : String) : (string s).Printable :=
  fun _ hn => isValidChar_of_mem_points hn

theorem isSurrogate_of_isValidChar {n : Nat} (h : n.isValidChar) : isSurrogate n = false := by
  simp only [isSurrogate, isHigh, isLow, Bool.or_eq_false_iff, Bool.and_eq_false_iff,
    decide_eq_false_iff_not]
  rcases h with h | h <;> omega

theorem unit?_unitEscape : ∀ n < 0x20,
    unit? (hexDigit (n / 4096)) (hexDigit (n / 256)) (hexDigit (n / 16)) (hexDigit n) = some n := by
  decide

theorem toNat_ofNat {n : Nat} (h : n.isValidChar) : (Char.ofNat n).toNat = n := by
  rw [Char.ofNat, dif_pos h]
  rfl

/-- What is written of one code point says that point. -/
theorem isUnits_writePoint {n : Nat} (hn : n.isValidChar) {body : List Char} {units : List Nat}
    (h : IsUnits body units) : IsUnits (writePoint n ++ body) (n :: units) := by
  unfold writePoint
  split
  · next heq => obtain rfl := eq_of_beq heq; exact .letter rfl h
  split
  · next heq => obtain rfl := eq_of_beq heq; exact .letter rfl h
  split
  · next heq => obtain rfl := eq_of_beq heq; exact .letter rfl h
  split
  · next heq => obtain rfl := eq_of_beq heq; exact .letter rfl h
  split
  · next heq => obtain rfl := eq_of_beq heq; exact .letter rfl h
  split
  · next heq => obtain rfl := eq_of_beq heq; exact .letter rfl h
  split
  · next heq => obtain rfl := eq_of_beq heq; exact .letter rfl h
  split
  · next hlow =>
    rw [isSurrogate_of_isValidChar hn, Bool.or_false, decide_eq_true_eq] at hlow
    exact .hex (unit?_unitEscape n hlow) h
  · next hquote hescape _ _ _ _ _ hlow =>
    have hchar := toNat_ofNat hn
    have hne (c : Char) (hc : ¬(n == c.toNat) = true) : Char.ofNat n ≠ c := by
      rintro rfl
      exact hc (by rw [hchar]; exact beq_self_eq_true n)
    have hplain := IsUnits.plain (hne '"' hquote) (hne '\\' hescape) (by
      rw [hchar]
      simp only [Bool.or_eq_true, decide_eq_true_eq, not_or, Nat.not_lt] at hlow
      exact hlow.1) h
    rwa [hchar] at hplain

theorem isUnits_flatMap {ns : List Nat} (h : ∀ n ∈ ns, n.isValidChar) :
    IsUnits (ns.flatMap writePoint) ns := by
  induction ns with
  | nil => exact .nil
  | cons n ns ih =>
    rw [List.flatMap_cons]
    exact isUnits_writePoint (h n List.mem_cons_self) (ih fun m hm => h m (List.mem_cons_of_mem n hm))

/-- Code points that are characters have no halves to pair. -/
theorem pair_of_isValidChar {ns : List Nat} (h : ∀ n ∈ ns, n.isValidChar) : pair ns = ns := by
  fun_induction pair ns with
  | case1 high low rest hpair ih =>
    have := isSurrogate_of_isValidChar (h high List.mem_cons_self)
    simp only [isSurrogate, Bool.or_eq_false_iff] at this
    simp [this.1] at hpair
  | case2 high low rest _ ih => rw [ih fun n hn => h n (List.mem_cons_of_mem high hn)]
  | case3 => rfl

theorem isText_writeText {ns : List Nat} (h : ∀ n ∈ ns, n.isValidChar) : IsText (writeText ns) ns := by
  have htext := IsText.mk (isUnits_flatMap h)
  rwa [pair_of_isValidChar h] at htext

/-! ### Without blanks -/

mutual
theorem isValue_write : (v : Json) → v.Printable → IsValue v.write v
  | .null, _ => .null
  | .bool true, _ => .yes
  | .bool false, _ => .no
  | .number _, h => .number h
  | .text _, h => .text (isText_writeText h)
  | .array [], _ => .emptyArray gap_nil
  | .array (item :: rest), h => by
    simpa [write] using IsValue.array gap_nil (isItems_write (item :: rest) (List.cons_ne_nil _ _) h)
  | .object [], _ => .emptyObject gap_nil
  | .object (field :: rest), h => by
    simpa [write] using IsValue.object gap_nil (isFields_write (field :: rest) (List.cons_ne_nil _ _) h)

theorem isItems_write : (items : List Json) → items ≠ [] → PrintableItems items →
    IsItems (writeItems items ++ [']']) items
  | [item], _, h => .last (isValue_write item h.1) gap_nil
  | item :: next :: rest, _, h => by
    have hrest := isItems_write (next :: rest) (List.cons_ne_nil _ _) h.2
    simpa [writeItems] using IsItems.more (isValue_write item h.1) gap_nil gap_nil hrest

theorem isFields_write : (fields : List (List Nat × Json)) → fields ≠ [] → PrintableFields fields →
    IsFields (writeFields fields ++ ['\x7d']) fields
  | [(key, v)], _, h => by
    have hmember := IsMember.mk (isText_writeText h.1) gap_nil gap_nil (isValue_write v h.2.1)
    simpa [writeFields] using IsFields.last hmember gap_nil
  | (key, v) :: next :: rest, _, h => by
    have hmember := IsMember.mk (isText_writeText h.1) gap_nil gap_nil (isValue_write v h.2.1)
    have hrest := isFields_write (next :: rest) (List.cons_ne_nil _ _) h.2.2
    simpa [writeFields] using IsFields.more hmember gap_nil gap_nil hrest
end

/-! Nothing that is written without blanks ends a line. -/

theorem IsNumber.not_mem {literal : List Char} (h : IsNumber literal) : '\n' ∉ literal := by
  have hdigits {cs : List Char} (h : Digits cs) : '\n' ∉ cs :=
    fun hmem => absurd (h.2 _ hmem) (by decide)
  have hmagnitude {cs : List Char} (h : IsMagnitude cs) : '\n' ∉ cs := by
    obtain ⟨hwhole, hfraction, hexponent⟩ := h
    rw [List.mem_append, List.mem_append, not_or, not_or]
    refine ⟨⟨?_, ?_⟩, ?_⟩
    · cases hwhole with
      | zero => decide
      | digits _ h => exact hdigits h
    · cases hfraction with
      | none => exact List.not_mem_nil
      | digits h => simp [hdigits h]
    · cases hexponent with
      | none => exact List.not_mem_nil
      | bare hmark h => rcases hmark with rfl | rfl <;> simp [hdigits h]
      | signed hmark hsign h =>
        rcases hmark with rfl | rfl <;> rcases hsign with rfl | rfl <;> simp [hdigits h]
  cases h with
  | positive h => exact hmagnitude h
  | negative h => simp [hmagnitude h]

theorem IsUnits.not_mem {body : List Char} {units : List Nat} (h : IsUnits body units) :
    '\n' ∉ body := by
  induction h with
  | nil => exact List.not_mem_nil
  | plain _ _ hlow _ ih =>
    rw [List.mem_cons, not_or]
    refine ⟨?_, ih⟩
    rintro rfl
    exact absurd hlow (by decide)
  | letter hc _ ih =>
    simp only [List.mem_cons, not_or]
    refine ⟨by decide, ?_, ih⟩
    rintro rfl
    cases hc
  | @hex a b c d _ _ _ hn _ ih =>
    have hhex {x : Char} {k : Nat} (hx : hexValue? x = some k) : '\n' ≠ x := by
      rintro rfl
      cases hx
    simp only [unit?, Option.bind_eq_bind, Option.bind_eq_some_iff] at hn
    obtain ⟨_, ha, _, hb, _, hc, _, hd, -⟩ := hn
    simp only [List.mem_cons, not_or]
    exact ⟨by decide, by decide, hhex ha, hhex hb, hhex hc, hhex hd, ih⟩

theorem IsText.not_mem {written : List Char} {points : List Nat} (h : IsText written points) :
    '\n' ∉ written := by
  obtain ⟨h⟩ := h
  simp [h.not_mem]

theorem not_mem_writeText {ns : List Nat} (h : ∀ n ∈ ns, n.isValidChar) : '\n' ∉ writeText ns :=
  (isText_writeText h).not_mem

mutual
/-- A value without blanks is one line. -/
theorem not_mem_write : (v : Json) → v.Printable → '\n' ∉ v.write
  | .null, _ => by decide
  | .bool true, _ => by decide
  | .bool false, _ => by decide
  | .number _, h => IsNumber.not_mem h
  | .text _, h => not_mem_writeText h
  | .array items, h => by simpa [write] using not_mem_writeItems items h
  | .object fields, h => by simpa [write] using not_mem_writeFields fields h

theorem not_mem_writeItems : (items : List Json) → PrintableItems items → '\n' ∉ writeItems items
  | [], _ => List.not_mem_nil
  | [item], h => not_mem_write item h.1
  | item :: next :: rest, h => by
    simpa [writeItems, not_mem_write item h.1] using not_mem_writeItems (next :: rest) h.2

theorem not_mem_writeFields : (fields : List (List Nat × Json)) → PrintableFields fields →
    '\n' ∉ writeFields fields
  | [], _ => List.not_mem_nil
  | [(key, v)], h => by simp [writeFields, not_mem_writeText h.1, not_mem_write v h.2.1]
  | (key, v) :: next :: rest, h => by
    simpa [writeFields, not_mem_writeText h.1, not_mem_write v h.2.1] using
      not_mem_writeFields (next :: rest) h.2.2
end

/-! ### Over several lines -/

theorem gap_newLine (level : Nat) : Gap (newLine level) := by
  intro c hc
  rcases List.mem_cons.mp hc with rfl | hc
  · rfl
  · rw [List.eq_of_mem_replicate hc]
    rfl

theorem gap_space : Gap [' '] := by
  intro c hc
  rw [List.mem_singleton.mp hc]
  rfl

mutual
theorem isValue_pretty (level : Nat) : (v : Json) → v.Printable → IsValue (v.pretty level) v
  | .null, _ => .null
  | .bool true, _ => .yes
  | .bool false, _ => .no
  | .number _, h => .number h
  | .text _, h => .text (isText_writeText h)
  | .array [], _ => .emptyArray gap_nil
  | .array (item :: rest), h => by
    obtain ⟨body, heq, hbody⟩ := isItems_pretty (level + 1) (item :: rest) (List.cons_ne_nil _ _) h
    have harray := IsValue.array (gap_newLine (level + 1)) (hbody (gap_newLine level))
    simpa [pretty, heq] using harray
  | .object [], _ => .emptyObject gap_nil
  | .object (field :: rest), h => by
    obtain ⟨body, heq, hbody⟩ := isFields_pretty (level + 1) (field :: rest) (List.cons_ne_nil _ _) h
    have hobject := IsValue.object (gap_newLine (level + 1)) (hbody (gap_newLine level))
    simpa [pretty, heq] using hobject

/-- Items on lines of their own, and any gap in front of the closing bracket. -/
theorem isItems_pretty (level : Nat) : (items : List Json) → items ≠ [] → PrintableItems items →
    ∃ body, prettyItems level items = newLine level ++ body ∧
      ∀ {s : List Char}, Gap s → IsItems (body ++ (s ++ [']'])) items
  | [item], _, h => ⟨pretty level item, rfl, fun hs => .last (isValue_pretty level item h.1) hs⟩
  | item :: next :: rest, _, h => by
    obtain ⟨body, heq, hbody⟩ := isItems_pretty level (next :: rest) (List.cons_ne_nil _ _) h.2
    refine ⟨pretty level item ++ ',' :: (newLine level ++ body), by simp [prettyItems, heq], ?_⟩
    intro s hs
    have hitem := isValue_pretty level item h.1
    simpa using IsItems.more hitem gap_nil (gap_newLine level) (hbody hs)

theorem isFields_pretty (level : Nat) : (fields : List (List Nat × Json)) → fields ≠ [] →
    PrintableFields fields → ∃ body, prettyFields level fields = newLine level ++ body ∧
      ∀ {s : List Char}, Gap s → IsFields (body ++ (s ++ ['\x7d'])) fields
  | [(key, v)], _, h => by
    have hmember := IsMember.mk (isText_writeText h.1) gap_nil gap_space (isValue_pretty level v h.2.1)
    refine ⟨writeText key ++ ':' :: ' ' :: pretty level v, by simp [prettyFields], fun hs => ?_⟩
    simpa using IsFields.last hmember hs
  | (key, v) :: next :: rest, _, h => by
    have hmember := IsMember.mk (isText_writeText h.1) gap_nil gap_space (isValue_pretty level v h.2.1)
    obtain ⟨body, heq, hbody⟩ := isFields_pretty level (next :: rest) (List.cons_ne_nil _ _) h.2.2
    refine ⟨writeText key ++ ':' :: ' ' :: (pretty level v ++ ',' :: (newLine level ++ body)),
      by simp [prettyFields, heq], fun hs => ?_⟩
    simpa using IsFields.more hmember gap_nil (gap_newLine level) (hbody hs)
end

/-! ### What is written is read back -/

theorem isDocument_of_isValue {text : List Char} {v : Json} (h : IsValue text v) :
    IsDocument text v := ⟨[], text, [], gap_nil, gap_nil, h, by simp⟩

theorem parse?_write {v : Json} (h : v.Printable) : parse? v.write = some v :=
  parse?_of_isDocument (isDocument_of_isValue (isValue_write v h))

/-! Fields and texts come back as well. -/

theorem printable_ofFields {fields : List (String × Json)} (h : ∀ f ∈ fields, f.2.Printable) :
    (ofFields fields).Printable := by
  rw [ofFields, Printable]
  induction fields with
  | nil => trivial
  | cons f fields ih =>
    exact ⟨fun _ hn => isValidChar_of_mem_points hn, h f List.mem_cons_self,
      ih fun g hg => h g (List.mem_cons_of_mem f hg)⟩

theorem ofPoints?_points (s : String) : ofPoints? (points s) = some s := by
  have hchars : (points s).any isSurrogate = false := by
    rw [List.any_eq_false]
    exact fun n hn => Bool.eq_false_iff.mp
      (isSurrogate_of_isValidChar (isValidChar_of_mem_points hn))
  rw [ofPoints?, hchars, points, List.map_map, show Char.ofNat ∘ Char.toNat = id from
    funext Char.ofNat_toNat, List.map_id, String.ofList_toList]
  rfl

theorem string?_string (s : String) : (string s).string? = some s := ofPoints?_points s

theorem points_inj {s t : String} : points s = points t ↔ s = t := by
  rw [points, points, List.map_inj_right fun c d => Char.toNat_inj.mp, String.toList_inj]

theorem field?_ofFields (key : String) (fields : List (String × Json)) :
    (ofFields fields).field? key = (fields.find? fun f => f.1 == key).map Prod.snd := by
  have hkey (f : String × Json) : (points f.1 == points key) = (f.1 == key) := by
    rw [Bool.eq_iff_iff, beq_iff_eq, beq_iff_eq, points_inj]
  simp only [ofFields, field?, List.find?_map, Option.map_map]
  simp [Function.comp_def, hkey]

end Trampoline.Json
