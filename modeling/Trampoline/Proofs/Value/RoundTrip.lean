import Trampoline.Proofs.Compound.Grammar
import Trampoline.Proofs.NameMap
import Trampoline.Proofs.Numeral

/-! Values that are written are read back.

The text of a value is one of the grammar, and nothing that follows it can be taken for a part of
it (`isValue_chars`). So it is read up to its end, whatever follows: `reread` says as what. Whole
numbers, texts, lists and compounds come back as they were; the text of a floating-point number is
a bare word and means what such a word means. A whole record is read to the end of its text
(`compound_describe`). -/
namespace Trampoline

/-! ### What a value is read as -/

namespace Value

mutual
/-- A value as its text is read. -/
def reread : Value → Value
  | .float bits => Compound.classify (Decimal.plainSingle bits ++ ['f'])
  | .double bits => Compound.classify (Decimal.plainDouble bits ++ ['d'])
  | .list items => .list (rereadItems items)
  | .compound fields => .compound (rereadFields [] fields)
  | v => v

def rereadItems : List Value → List Value
  | [] => []
  | v :: rest => v.reread :: rereadItems rest

/-- Fields are put into what was read before them. -/
def rereadFields (read : Record) : List (String × Value) → Record
  | [] => read
  | (k, v) :: rest => rereadFields (read.insert k v.reread) rest
end

mutual
/-- All compounds in a value are maps: sorted by name, with one field for each name. -/
def Ordered : Value → Prop
  | .list items => OrderedItems items
  | .compound fields => NameMap.Sorted fields ∧ OrderedFields fields
  | _ => True

def OrderedItems : List Value → Prop
  | [] => True
  | v :: rest => v.Ordered ∧ OrderedItems rest

def OrderedFields : List (String × Value) → Prop
  | [] => True
  | (_, v) :: rest => v.Ordered ∧ OrderedFields rest
end

mutual
/-- No floating-point number occurs in a value. -/
def isExact : Value → Bool
  | .float _ => false
  | .double _ => false
  | .list items => areExactItems items
  | .compound fields => areExactFields fields
  | _ => true

def areExactItems : List Value → Bool
  | [] => true
  | v :: rest => v.isExact && areExactItems rest

def areExactFields : List (String × Value) → Bool
  | [] => true
  | (_, v) :: rest => v.isExact && areExactFields rest
end

end Value

namespace Value

mutual
/-- A value without floating-point numbers is read as it is. -/
theorem reread_eq : (v : Value) → v.Ordered → v.isExact = true → v.reread = v
  | .byte _, _, _ => rfl
  | .short _, _, _ => rfl
  | .int _, _, _ => rfl
  | .long _, _, _ => rfl
  | .text _, _, _ => rfl
  | .list items, hordered, hexact => by
    rw [Ordered] at hordered
    rw [isExact] at hexact
    rw [reread, rereadItems_eq items hordered hexact]
  | .compound fields, hordered, hexact => by
    rw [Ordered] at hordered
    rw [isExact] at hexact
    rw [reread, rereadFields_eq fields [] hordered.1 hordered.2 hexact, List.nil_append]

theorem rereadItems_eq : (items : List Value) → OrderedItems items → areExactItems items = true →
    rereadItems items = items
  | [], _, _ => rfl
  | v :: rest, hordered, hexact => by
    rw [OrderedItems] at hordered
    rw [areExactItems, Bool.and_eq_true] at hexact
    rw [rereadItems, reread_eq v hordered.1 hexact.1, rereadItems_eq rest hordered.2 hexact.2]

theorem rereadFields_eq : (fields : List (String × Value)) → (read : Record) →
    NameMap.Sorted (read ++ fields) → OrderedFields fields → areExactFields fields = true →
    rereadFields read fields = read ++ fields
  | [], read, _, _, _ => (List.append_nil read).symm
  | (k, v) :: rest, read, hsorted, hordered, hexact => by
    rw [OrderedFields] at hordered
    rw [areExactFields, Bool.and_eq_true] at hexact
    have hlast : ∀ earlier ∈ NameMap.names read, earlier < k := by
      rw [NameMap.Sorted, NameMap.names, List.map_append] at hsorted
      intro earlier hearlier
      exact (List.pairwise_append.mp hsorted).2.2 earlier hearlier k List.mem_cons_self
    have happend : read ++ (k, v) :: rest = (read ++ [(k, v)]) ++ rest := by simp
    rw [rereadFields, reread_eq v hordered.1 hexact.1, NameMap.insert_last v hlast, happend]
    exact rereadFields_eq rest _ (happend ▸ hsorted) hordered.2 hexact.2
end

end Value

namespace Compound
open Value (isBareChar chars itemsChars fieldsChars keyChars escape quoted)

/-! ### Tokens -/

/-- A text is written so that it ends at its closing quote. -/
theorem quotedBody_escape (cs : List Char) : QuotedBody '"' (escape cs ++ ['"']) cs := by
  induction cs with
  | nil => exact .close
  | cons c cs ih =>
    have hescape : escape (c :: cs) ++ ['"'] =
        (if c == '"' || c == '\\' then ['\\', c] else [c]) ++ (escape cs ++ ['"']) := by
      simp [escape]
    rw [hescape]
    by_cases hspecial : (c == '"' || c == '\\') = true
    · rw [if_pos hspecial]
      exact .escaped c ih
    · rw [if_neg hspecial]
      simp only [Bool.or_eq_true, beq_iff_eq, not_or] at hspecial
      exact .plain hspecial.1 hspecial.2 ih

theorem isToken_quoted {α : Type} (text bare : List Char → α) (s : String) (rest : List Char) :
    IsToken text bare (quoted s) (text s.toList) rest :=
  .quoted (.inl rfl) (quotedBody_escape s.toList)

theorem isKey_keyChars (key : String) {rest : List Char} (hstops : Stops rest) :
    IsKey (keyChars key) key rest := by
  unfold keyChars
  split
  · next hbare =>
    rw [Value.isBareKey, Bool.and_eq_true, Bool.not_eq_true', List.isEmpty_eq_false_iff,
      List.all_eq_true] at hbare
    have hkey : IsKey key.toList (String.ofList key.toList) rest := .bare hbare.1 hbare.2 hstops
    rwa [String.ofList_toList] at hkey
  · have hkey : IsKey (quoted key) (String.ofList key.toList) rest := isToken_quoted _ _ key rest
    rwa [String.ofList_toList] at hkey

/-! ### Words that are numbers -/

theorem splitSuffix_letter {before : List Char} {c : Char} (hne : before ≠ []) (hc : c.isAlpha = true) :
    splitSuffix (before ++ [c]) = some (before, c.toLower) := by
  obtain ⟨c', rest, heq⟩ := List.exists_cons_of_ne_nil (mt List.reverse_eq_nil_iff.mp hne)
  unfold splitSuffix
  rw [List.reverse_append, List.reverse_singleton, List.singleton_append, heq]
  dsimp only
  rw [if_pos hc, ← heq, List.reverse_reverse]

theorem splitSuffix_digit (before : List Char) {c : Char} (hc : c.isAlpha = false) :
    splitSuffix (before ++ [c]) = none := by
  unfold splitSuffix
  rw [List.reverse_append, List.reverse_singleton, List.singleton_append]
  split
  · next heq =>
    rw [← (List.cons.inj heq).1, hc]
    rfl
  · rfl

/-- A word with a digit in it is not one of the words for truth values. -/
theorem classify_eq {w : List Char} (h : w.any Char.isDigit = true) :
    classify w = (number? w).getD (.text (String.ofList w)) := by
  unfold classify
  rw [if_neg, if_neg]
  · rintro heq
    rw [beq_iff_eq.mp heq] at h
    exact absurd h (by decide)
  · rintro heq
    rw [beq_iff_eq.mp heq] at h
    exact absurd h (by decide)

theorem any_isDigit_ofNat (n : Nat) : (Numeral.ofNat n).any Char.isDigit = true := by
  obtain ⟨c, rest, heq⟩ := List.exists_cons_of_ne_nil (Numeral.ofNat_ne_nil n)
  exact List.any_eq_true.mpr ⟨c, heq ▸ List.mem_cons_self,
    Numeral.isDigit_of_mem_ofNat (heq ▸ List.mem_cons_self)⟩

theorem any_isDigit_ofInt (n : Int) : (Numeral.ofInt n).any Char.isDigit = true := by
  rcases Numeral.ofInt_cases n with ⟨k, -, heq⟩ | ⟨k, -, heq⟩
  · rw [heq, any_isDigit_ofNat]
  · rw [heq, List.any_cons, any_isDigit_ofNat, Bool.or_true]

/-- Digits are taken for digits, with or without a sign. -/
theorem isInteger_digits {w : List Char} (hne : w ≠ []) (hall : w.all Char.isDigit = true) :
    isInteger w = true ∧ isInteger ('-' :: w) = true := by
  have hdigits : (!w.isEmpty && w.all Char.isDigit) = true := by
    rw [hall, Bool.and_true, Bool.not_eq_true', List.isEmpty_eq_false_iff]
    exact hne
  refine ⟨?_, hdigits⟩
  unfold isInteger
  split
  · exact absurd hall (by simp)
  · exact absurd hall (by simp)
  · exact hdigits

theorem isDecimal_digits {w : List Char} (hany : w.any Char.isDigit = true)
    (hall : w.all Char.isDigit = true) : isDecimal w = true ∧ isDecimal ('-' :: w) = true := by
  have hdigits : (w.any Char.isDigit && w.all fun c =>
      c.isDigit || c == '.' || c == 'e' || c == 'E' || c == '-' || c == '+') = true := by
    rw [hany, Bool.true_and, List.all_eq_true]
    intro c hc
    rw [List.all_eq_true.mp hall c hc]
    rfl
  refine ⟨?_, hdigits⟩
  unfold isDecimal
  split
  · exact absurd hall (by simp)
  · exact absurd hall (by simp)
  · exact hdigits

theorem all_isDigit_ofNat (n : Nat) : (Numeral.ofNat n).all Char.isDigit = true :=
  List.all_eq_true.mpr fun _ => Numeral.isDigit_of_mem_ofNat

theorem isInteger_ofInt (n : Int) : isInteger (Numeral.ofInt n) = true := by
  rcases Numeral.ofInt_cases n with ⟨k, -, heq⟩ | ⟨k, -, heq⟩
  · exact heq ▸ (isInteger_digits (Numeral.ofNat_ne_nil k) (all_isDigit_ofNat k)).1
  · exact heq ▸ (isInteger_digits (Numeral.ofNat_ne_nil _) (all_isDigit_ofNat _)).2

theorem isDecimal_ofInt (n : Int) : isDecimal (Numeral.ofInt n) = true := by
  rcases Numeral.ofInt_cases n with ⟨k, -, heq⟩ | ⟨k, -, heq⟩
  · exact heq ▸ (isDecimal_digits (any_isDigit_ofNat k) (all_isDigit_ofNat k)).1
  · exact heq ▸ (isDecimal_digits (any_isDigit_ofNat _) (all_isDigit_ofNat _)).2

theorem ofInt_ne_nil (n : Int) : Numeral.ofInt n ≠ [] := by
  obtain ⟨before, c, heq, -⟩ := Numeral.exists_ofInt_eq_append n
  simp [heq]

theorem isAlpha_of_isDigit {c : Char} (h : c.isDigit = true) : c.isAlpha = false := by
  have hnine : c.val ≤ 57 := of_decide_eq_true (Bool.and_eq_true_iff.mp h).2
  have hbelow {bound : UInt32} (hbound : 57 < bound) : ¬ bound ≤ c.val := fun hle =>
    UInt32.not_lt.mpr (UInt32.le_trans hle hnine) hbound
  have hupper : c.isUpper = false := decide_eq_false fun hupper =>
    absurd hupper.1 (hbelow (show 57 < (65 : UInt32) by decide))
  have hlower : c.isLower = false := Bool.and_eq_false_iff.mpr
    (.inl (decide_eq_false (hbelow (show 57 < (97 : UInt32) by decide))))
  exact Bool.or_eq_false_iff.mpr ⟨hupper, hlower⟩

/-- A numeral with a letter after it is the number of that kind. -/
theorem classify_suffixed {n : Int} {c : Char} {v : Value} (hc : c.isAlpha = true)
    (hv : suffixed (Numeral.ofInt n) c.toLower = some v) :
    classify (Numeral.ofInt n ++ [c]) = v := by
  rw [classify_eq (by rw [List.any_append, any_isDigit_ofInt, Bool.true_or]), number?,
    splitSuffix_letter (ofInt_ne_nil n) hc]
  simp only [isDecimal_ofInt, if_true, hv, Option.getD_some]

theorem classify_int (n : Int32) : classify (Numeral.ofInt n.toInt) = .int n := by
  obtain ⟨before, c, heq, hc⟩ := Numeral.exists_ofInt_eq_append n.toInt
  have hletter : c.isAlpha = false := isAlpha_of_isDigit hc
  rw [classify_eq (any_isDigit_ofInt _), number?]
  -- a numeral ends in a digit, so there is no suffix to split off
  have hsplit : splitSuffix (Numeral.ofInt n.toInt) = none := heq ▸ splitSuffix_digit before hletter
  simp only [hsplit, isInteger_ofInt, if_true, Numeral.readInt32_ofInt]
  rfl

theorem isBareChar_of_isDigit {c : Char} (h : c.isDigit = true) : isBareChar c = true := by
  simp [isBareChar, Char.isAlphanum, h]

theorem isBareChar_ofInt {n : Int} {c : Char} (h : c ∈ Numeral.ofInt n) : isBareChar c = true := by
  rcases Numeral.mem_ofInt h with rfl | hdigit
  · rfl
  · exact isBareChar_of_isDigit hdigit

/-! ### Floating-point text -/

theorem mem_of_mem_dropZeros {cs : List Char} {c : Char} (h : c ∈ Decimal.dropZeros cs) : c ∈ cs := by
  have hdrop : ∀ d ∈ cs.reverse.dropWhile (· == '0'), d ∈ cs := fun d hd =>
    List.mem_reverse.mp ((List.dropWhile_sublist _).subset hd)
  unfold Decimal.dropZeros at h
  split at h
  · next heq => exact hdrop c (heq ▸ List.mem_cons_of_mem _ (List.mem_reverse.mp h))
  · exact hdrop c (List.mem_reverse.mp h)

theorem isBareChar_placed {places n : Nat} {c : Char} (h : c ∈ Decimal.placed places n) :
    isBareChar c = true := by
  have hdigits : ∀ d ∈ Numeral.padded (places + 1) n, isBareChar d = true := by
    intro d hd
    rcases List.mem_append.mp hd with hzero | hdigit
    · rw [(List.mem_replicate.mp hzero).2]
      rfl
    · exact isBareChar_of_isDigit (Numeral.isDigit_of_mem_ofNat hdigit)
  rcases List.mem_append.mp h with htaken | hrest
  · exact hdigits c (List.mem_of_mem_take htaken)
  · rcases List.mem_cons.mp hrest with rfl | hdropped
    · rfl
    · exact hdigits c (List.mem_of_mem_drop hdropped)

theorem isBareChar_signed {negative : Bool} {cs : List Char} (h : ∀ c ∈ cs, isBareChar c = true) :
    ∀ c ∈ Decimal.signed negative cs, isBareChar c = true := by
  unfold Decimal.signed
  split
  · exact List.forall_mem_cons.mpr ⟨rfl, h⟩
  · exact h

/-- The text of a floating-point number is a bare word. -/
theorem isBareChar_plain (r : Decimal.Reading) : ∀ c ∈ Decimal.plain r, isBareChar c = true := by
  cases r with
  | nan => exact List.all_eq_true.mp rfl
  | infinite negative => exact isBareChar_signed (List.all_eq_true.mp rfl)
  | finite negative m e =>
    exact isBareChar_signed fun c hc => isBareChar_placed (mem_of_mem_dropZeros hc)

/-! ### Values -/

/-- A value that is written as one bare word. -/
structure IsWord (v : Value) : Prop where
  bare : ∀ c ∈ chars v, isBareChar c = true
  some : chars v ≠ []
  means : classify (chars v) = v.reread

theorem isWord_suffixed {v : Value} {w : List Char} {c : Char} (hchars : chars v = w ++ [c])
    (hw : ∀ d ∈ w, isBareChar d = true) (hc : isBareChar c = true)
    (hmeans : classify (w ++ [c]) = v.reread) : IsWord v := by
  refine ⟨?_, by simp [hchars], hchars ▸ hmeans⟩
  rw [hchars]
  exact List.forall_mem_append.mpr ⟨hw, fun d hd => List.mem_singleton.mp hd ▸ hc⟩

theorem isWord_byte (n : Int8) : IsWord (.byte n) :=
  isWord_suffixed rfl (fun _ => isBareChar_ofInt) rfl
    (classify_suffixed rfl (congrArg (Option.map Value.byte) (Numeral.readInt8_ofInt n)))

theorem isWord_short (n : Int16) : IsWord (.short n) :=
  isWord_suffixed rfl (fun _ => isBareChar_ofInt) rfl
    (classify_suffixed rfl (congrArg (Option.map Value.short) (Numeral.readInt16_ofInt n)))

theorem isWord_int (n : Int32) : IsWord (.int n) :=
  ⟨fun _ => isBareChar_ofInt, ofInt_ne_nil _, classify_int n⟩

theorem isWord_long (n : Int64) : IsWord (.long n) :=
  isWord_suffixed rfl (fun _ => isBareChar_ofInt) rfl
    (classify_suffixed rfl (congrArg (Option.map Value.long) (Numeral.readInt64_ofInt n)))

theorem isWord_float (bits : UInt32) : IsWord (.float bits) :=
  isWord_suffixed rfl (isBareChar_plain _) rfl rfl

theorem isWord_double (bits : UInt64) : IsWord (.double bits) :=
  isWord_suffixed rfl (isBareChar_plain _) rfl rfl

theorem IsWord.isValue {v : Value} (h : IsWord v) {rest : List Char} (hstops : Stops rest) :
    IsValue (chars v) v.reread rest :=
  h.means ▸ .scalar (.bare h.some h.bare hstops)

/-- Fields as their text is read, one by one. -/
def rereadPairs (fields : List (String × Value)) : List (String × Value) :=
  fields.map fun (k, v) => (k, v.reread)

theorem rereadFields_eq_putAll (fields : List (String × Value)) (read : Record) :
    Value.rereadFields read fields = putAll read (rereadPairs fields) := by
  induction fields generalizing read with
  | nil => rfl
  | cons field fields ih =>
    rw [Value.rereadFields, ih]
    rfl

theorem isPair_chars (k : String) {v : Value} {rest : List Char}
    (h : IsValue (chars v) v.reread rest) : IsPair (keyChars k ++ ':' :: chars v) k v.reread rest :=
  @IsPair.mk _ [] [] _ _ _ _ (isKey_keyChars k (stops_cons _ rfl)) spaces_nil spaces_nil h

mutual
/-- The text of a value is one of the grammar, whatever follows it. -/
theorem isValue_chars (v : Value) (rest : List Char) (hstops : Stops rest) :
    IsValue (chars v) v.reread rest := by
  match v with
  | .byte k => exact (isWord_byte k).isValue hstops
  | .short k => exact (isWord_short k).isValue hstops
  | .int k => exact (isWord_int k).isValue hstops
  | .long k => exact (isWord_long k).isValue hstops
  | .float bits => exact (isWord_float bits).isValue hstops
  | .double bits => exact (isWord_double bits).isValue hstops
  | .text s =>
    have htext : IsScalar (quoted s) (.text (String.ofList s.toList)) rest := isToken_quoted _ _ s rest
    rw [String.ofList_toList] at htext
    exact .scalar htext
  | .list [] => exact .emptyList spaces_nil
  | .list (v :: items) =>
    rw [chars, Value.reread, Value.rereadItems]
    exact .list (s := []) spaces_nil (isItems_chars v items rest)
  | .compound fields =>
    rw [Value.reread, rereadFields_eq_putAll]
    exact .compound (isCompound_chars fields rest)
termination_by sizeOf v

theorem isItems_chars (v : Value) (items : List Value) (rest : List Char) :
    IsItems (chars v ++ itemsChars items) (v.reread :: Value.rereadItems items) rest := by
  match items with
  | [] => exact .last (isValue_chars v (']' :: rest) (stops_cons rest rfl)) spaces_nil
  | v' :: items =>
    have hvalue := isValue_chars v (',' :: (chars v' ++ itemsChars items ++ rest)) (stops_cons _ rfl)
    exact @IsItems.more _ [] [] _ rest _ _ hvalue spaces_nil spaces_nil (isItems_chars v' items rest)
termination_by sizeOf v + sizeOf items

theorem isFields_chars (k : String) (v : Value) (fields : List (String × Value)) (rest : List Char) :
    IsFields (keyChars k ++ ':' :: (chars v ++ fieldsChars fields)) (rereadPairs ((k, v) :: fields))
      rest := by
  match fields with
  | [] =>
    have hpair := isPair_chars k (isValue_chars v ('\x7d' :: rest) (stops_cons rest rfl))
    simpa [fieldsChars, rereadPairs] using @IsFields.last _ [] rest _ _ hpair spaces_nil
  | (k', v') :: fields =>
    have hmore := isFields_chars k' v' fields rest
    have hpair := isPair_chars k (isValue_chars v
      (',' :: (keyChars k' ++ ':' :: (chars v' ++ fieldsChars fields) ++ rest)) (stops_cons _ rfl))
    simpa [fieldsChars, rereadPairs] using
      @IsFields.more _ [] [] _ rest _ _ _ hpair spaces_nil spaces_nil hmore
termination_by sizeOf v + sizeOf fields

theorem isCompound_chars (fields : List (String × Value)) (rest : List Char) :
    IsCompound (chars (.compound fields)) (rereadPairs fields) rest := by
  match fields with
  | [] => exact .empty spaces_nil spaces_nil
  | (k, v) :: fields =>
    rw [chars]
    exact @IsCompound.fields [] [] _ _ _ spaces_nil spaces_nil (isFields_chars k v fields rest)
termination_by sizeOf fields
end

/-- The text of a record is read up to its end, whatever follows it. -/
theorem read_chars (r : Record) (rest : List Char) :
    read (chars (.compound r) ++ rest) = .ok (Value.rereadFields [] r, rest) := by
  rw [rereadFields_eq_putAll]
  exact read_ok_iff.mpr ⟨chars (.compound r), rereadPairs r, rfl, isCompound_chars r rest, rfl⟩

end Compound

/-! ### Records -/

namespace Record

/-- A record whose compounds are all maps. -/
def Ordered (r : Record) : Prop := (Value.compound r).Ordered

/-- A record without floating-point numbers. -/
def isExact (r : Record) : Bool := (Value.compound r).isExact

/-- The text of a record is read to its end, and without floating-point numbers as the record
itself. -/
theorem compound_describe (r : Record) :
    ∃ read : Record, (Cursor.ofText r.describe).compound =
        .ok (read, ⟨r.describe, r.describe.utf8ByteSize, []⟩) ∧
      (r.Ordered → r.isExact = true → read = r) := by
  have hread : Compound.read (Cursor.ofText r.describe).rest = .ok (Value.rereadFields [] r, []) := by
    have hchars := Compound.read_chars r []
    rw [List.append_nil] at hchars
    rw [Cursor.ofText, describe, Value.describe, String.toList_ofList, hchars]
  refine ⟨Value.rereadFields [] r, ?_, fun hordered hexact => ?_⟩
  · have hend : (Cursor.ofText r.describe).moveTo [] =
        ⟨r.describe, r.describe.utf8ByteSize, []⟩ := by
      rw [Cursor.moveTo, Cursor.ofText, Text.width_toList, Text.width_nil, Nat.sub_zero, Nat.zero_add]
    rw [Cursor.compound, hread]
    exact congrArg (fun c => Except.ok (_, c)) hend
  · have hreread := Value.reread_eq (.compound r) hordered hexact
    rw [Value.reread] at hreread
    exact Value.compound.inj hreread

/-- Names and texts of every kind, the ends of the ranges of whole numbers, and nesting. -/
def specimen : Record := [
  ("", .text "a \"b\" \\ 'c'"),
  ("[x:1]", .list [.byte (-128), .short 32767, .int (-2147483648), .long 9223372036854775807]),
  ("bare.key", .compound [("é", .list []), ("😀", .compound [])])]

theorem compound_describe_specimen : specimen.Ordered ∧ specimen.isExact = true ∧
    (Cursor.ofText specimen.describe).compound =
      .ok (specimen, ⟨specimen.describe, specimen.describe.utf8ByteSize, []⟩) := by
  have hordered : specimen.Ordered := by
    simp only [Ordered, specimen, Value.Ordered, Value.OrderedItems, Value.OrderedFields, and_true,
      NameMap.Sorted]
    decide
  have hexact : specimen.isExact = true := by
    simp [isExact, specimen, Value.isExact, Value.areExactItems, Value.areExactFields]
  obtain ⟨read, hread, hsame⟩ := compound_describe specimen
  rw [hsame hordered hexact] at hread
  exact ⟨hordered, hexact, hread⟩

end Record

end Trampoline
