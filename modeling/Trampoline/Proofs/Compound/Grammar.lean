import Trampoline.Compound

/-! The grammar of compounds.

    compound = sp* '{' sp* ('}' | pair (sp* ',' sp* pair)* sp* '}')
    pair     = key sp* ':' sp* value
    key      = quoted | bare
    value    = compound | '[' sp* (']' | value (sp* ',' sp* value)* sp* ']') | quoted | bare

`sp` is the space, a quoted text goes up to the next quote of its kind that no backslash stands
in front of, and a bare word goes as far as its characters do. A derivation is about the text
itself and about what follows it, because only that tells whether a bare word is at its end.

The reader finds a compound exactly where one can be derived (`read_ok_iff`). It goes down the
grammar with less and less fuel; a text it has read has a derivation whatever fuel was left
(`derives`), and a text with a derivation needs no more than two calls for each of its
characters (`reads_value`). -/
namespace Trampoline.Compound
open Value (isBareChar)

/-! ### The grammar -/

/-- What follows a word ends it. -/
def Stops (rest : List Char) : Prop := ∀ c ∈ rest.head?, isBareChar c = false

/-- Spaces, or nothing. -/
def Spaces (cs : List Char) : Prop := ∀ c ∈ cs, c = ' '

/-- The rest of a quoted text after its opening quote, and what the text says. -/
inductive QuotedBody (quote : Char) : List Char → List Char → Prop where
  | close : QuotedBody quote [quote] []
  | escaped (c : Char) {written text : List Char} (h : QuotedBody quote written text) :
      QuotedBody quote ('\\' :: c :: written) (c :: text)
  | plain {c : Char} {written text : List Char} (hquote : c ≠ quote) (hescape : c ≠ '\\')
      (h : QuotedBody quote written text) : QuotedBody quote (c :: written) (c :: text)

/-- A quoted text or a bare word in front of `rest`; `quoted` and `bare` say what it means. -/
inductive IsToken {α : Type} (quoted bare : List Char → α) : List Char → α → List Char → Prop where
  | quoted {quote : Char} {written text rest : List Char} (hquote : quote = '"' ∨ quote = '\'')
      (h : QuotedBody quote written text) : IsToken quoted bare (quote :: written) (quoted text) rest
  | bare {w rest : List Char} (hsome : w ≠ []) (hbare : ∀ c ∈ w, isBareChar c = true)
      (hmaximal : Stops rest) : IsToken quoted bare w (bare w) rest

/-- A key. -/
abbrev IsKey : List Char → String → List Char → Prop := IsToken String.ofList String.ofList

/-- A value that is a single token. -/
abbrev IsScalar : List Char → Value → List Char → Prop :=
  IsToken (fun text => .text (String.ofList text)) classify

mutual
/-- `IsValue text v rest`: the text is a value in front of `rest`, namely `v`. -/
inductive IsValue : List Char → Value → List Char → Prop where
  | scalar {text rest : List Char} {v : Value} (h : IsScalar text v rest) : IsValue text v rest
  | compound {text rest : List Char} {fields : List (String × Value)}
      (h : IsCompound text fields rest) : IsValue text (.compound (NameMap.ofList fields)) rest
  | emptyList {s rest : List Char} (hs : Spaces s) : IsValue ('[' :: (s ++ [']'])) (.list []) rest
  | list {s text rest : List Char} {items : List Value} (hs : Spaces s)
      (h : IsItems text items rest) : IsValue ('[' :: (s ++ text)) (.list items) rest

/-- The items of a list, one or more, and its closing bracket. -/
inductive IsItems : List Char → List Value → List Char → Prop where
  | last {text s rest : List Char} {v : Value} (h : IsValue text v (s ++ ']' :: rest))
      (hs : Spaces s) : IsItems (text ++ (s ++ [']'])) [v] rest
  | more {text s s' more rest : List Char} {v : Value} {items : List Value}
      (h : IsValue text v (s ++ ',' :: (s' ++ (more ++ rest)))) (hs : Spaces s) (hs' : Spaces s')
      (hmore : IsItems more items rest) :
      IsItems (text ++ (s ++ ',' :: (s' ++ more))) (v :: items) rest

/-- A field. -/
inductive IsPair : List Char → String → Value → List Char → Prop where
  | mk {k s s' text rest : List Char} {key : String} {v : Value}
      (hkey : IsKey k key (s ++ ':' :: (s' ++ (text ++ rest)))) (hs : Spaces s) (hs' : Spaces s')
      (hvalue : IsValue text v rest) : IsPair (k ++ (s ++ ':' :: (s' ++ text))) key v rest

/-- The fields of a compound, one or more, and its closing brace. -/
inductive IsFields : List Char → List (String × Value) → List Char → Prop where
  | last {pair s rest : List Char} {key : String} {v : Value}
      (h : IsPair pair key v (s ++ '\x7d' :: rest)) (hs : Spaces s) :
      IsFields (pair ++ (s ++ ['\x7d'])) [(key, v)] rest
  | more {pair s s' more rest : List Char} {key : String} {v : Value}
      {fields : List (String × Value)} (h : IsPair pair key v (s ++ ',' :: (s' ++ (more ++ rest))))
      (hs : Spaces s) (hs' : Spaces s') (hmore : IsFields more fields rest) :
      IsFields (pair ++ (s ++ ',' :: (s' ++ more))) ((key, v) :: fields) rest

/-- A compound and its fields, as they are written. -/
inductive IsCompound : List Char → List (String × Value) → List Char → Prop where
  | empty {s s' rest : List Char} (hs : Spaces s) (hs' : Spaces s') :
      IsCompound (s ++ '\x7b' :: (s' ++ ['\x7d'])) [] rest
  | fields {s s' text rest : List Char} {fields : List (String × Value)} (hs : Spaces s)
      (hs' : Spaces s') (h : IsFields text fields rest) :
      IsCompound (s ++ '\x7b' :: (s' ++ text)) fields rest
end

/-! ### Spaces -/

variable {s cs rest text : List Char}

theorem stops_cons {c : Char} (rest : List Char) (h : isBareChar c = false) : Stops (c :: rest) :=
  fun c' hc => by
    cases hc
    exact h

theorem skipSpaces_cons {c : Char} (rest : List Char) (h : c ≠ ' ') :
    skipSpaces (c :: rest) = c :: rest := by
  rw [skipSpaces, List.dropWhile_cons_of_neg]
  simpa [Cursor.isSpace] using h

/-- A character of a bare word is not one that structures a text. -/
theorem ne_of_isBareChar {c d : Char} (hc : isBareChar c = true) (hd : isBareChar d = false) :
    c ≠ d := by
  rintro rfl
  exact Bool.noConfusion (hc.symm.trans hd)

theorem isQuote_of_isBareChar {c : Char} (h : isBareChar c = true) : isQuote c = false := by
  rw [isQuote, Bool.or_eq_false_iff, beq_eq_false_iff_ne, beq_eq_false_iff_ne]
  exact ⟨ne_of_isBareChar h rfl, ne_of_isBareChar h rfl⟩

theorem spaces_nil : Spaces [] := fun _ hc => nomatch hc

theorem Spaces.append {s' : List Char} (hs : Spaces s) (hs' : Spaces s') : Spaces (s ++ s') :=
  List.forall_mem_append.mpr ⟨hs, hs'⟩

theorem skipSpaces_append (hs : Spaces s) (cs : List Char) : skipSpaces (s ++ cs) = skipSpaces cs :=
  List.dropWhile_append_of_pos fun c hc => by simp [hs c hc, Cursor.isSpace]

/-- What is skipped are spaces. -/
theorem exists_spaces (cs : List Char) : ∃ s, Spaces s ∧ cs = s ++ skipSpaces cs := by
  refine ⟨cs.takeWhile Cursor.isSpace, fun c hc => ?_, List.takeWhile_append_dropWhile.symm⟩
  simpa [Cursor.isSpace] using List.all_eq_true.mp List.all_takeWhile c hc

theorem stops_spaces {c : Char} (hs : Spaces s) (hc : isBareChar c = false) (rest : List Char) :
    Stops (s ++ c :: rest) := by
  cases s with
  | nil => exact stops_cons rest hc
  | cons c' s =>
    refine stops_cons _ ?_
    rw [hs c' List.mem_cons_self]
    rfl

/-! ### Tokens -/

/-- What is read up to the closing quote is the body of a quoted text. -/
theorem readQuoted_sound {quote : Char} {taken t : List Char}
    (h : readQuoted quote taken cs = .ok (t, rest)) :
    ∃ written text, cs = written ++ rest ∧ QuotedBody quote written text ∧
      t = taken.reverse ++ text := by
  fun_induction readQuoted quote taken cs with
  | case1 => cases h
  | case2 => cases h
  | case3 taken c cs ih =>
    obtain ⟨written, text, rfl, hbody, rfl⟩ := ih h
    exact ⟨'\\' :: c :: written, c :: text, rfl, .escaped c hbody, by simp⟩
  | case4 taken c cs _ _ hclose =>
    cases h
    exact ⟨[c], [], rfl, by rw [beq_iff_eq.mp hclose]; exact .close, by simp⟩
  | case5 taken c cs hlast hescape hopen ih =>
    obtain ⟨written, text, rfl, hbody, rfl⟩ := ih h
    -- a backslash has been seen to, at the end and in front of a character
    have hc : c ≠ '\\' := by
      rintro rfl
      cases hcs : written ++ rest with
      | nil => exact hlast rfl hcs
      | cons c' cs' => exact hescape c' cs' rfl hcs
    exact ⟨c :: written, c :: text, rfl, .plain (by simpa using hopen) hc hbody, by simp⟩

theorem readQuoted_complete {quote : Char} {written : List Char} (hquote : quote ≠ '\\')
    (h : QuotedBody quote written text) (taken rest : List Char) :
    readQuoted quote taken (written ++ rest) = .ok (taken.reverse ++ text, rest) := by
  induction h generalizing taken with
  | close => simp [readQuoted, hquote]
  | escaped c _ ih => simp [readQuoted, ih]
  | plain hne hescape _ ih => simp [readQuoted, hne, hescape, ih]

variable {α : Type} {missing : Cause} {quoted bare : List Char → α} {a : α}

theorem isQuote_iff {c : Char} : isQuote c = true ↔ c = '"' ∨ c = '\'' := by
  rw [isQuote, Bool.or_eq_true, beq_iff_eq, beq_iff_eq]

/-- The longest run of characters of bare words is stopped by what follows it. -/
theorem stops_drop_takeWhile (cs : List Char) :
    Stops (cs.drop (cs.takeWhile isBareChar).length) := by
  induction cs with
  | nil => exact fun c hc => nomatch hc
  | cons c cs ih =>
    by_cases hc : isBareChar c = true
    · rw [List.takeWhile_cons_of_pos hc]
      exact ih
    · rw [List.takeWhile_cons_of_neg hc]
      exact stops_cons cs (by simpa using hc)

theorem readToken_bare {w : List Char} (rest : List Char) (hbare : ∀ c ∈ w, isBareChar c = true)
    (hne : w ≠ []) (hstops : Stops rest) :
    readToken missing quoted bare (w ++ rest) = .ok (bare w, rest) := by
  have hword : (w ++ rest).takeWhile isBareChar = w := by
    rw [List.takeWhile_append_of_pos hbare]
    cases rest with
    | nil => exact List.append_nil w
    | cons c rest =>
      rw [List.takeWhile_cons_of_neg (by simp [hstops c rfl]), List.append_nil]
  obtain ⟨c, w', rfl⟩ := List.exists_cons_of_ne_nil hne
  unfold readToken
  rw [List.cons_append]
  dsimp only
  rw [isQuote_of_isBareChar (hbare c List.mem_cons_self), if_neg Bool.false_ne_true,
    ← List.cons_append, hword, List.drop_left]
  rfl

theorem readToken_ok_iff :
    readToken missing quoted bare cs = .ok (a, rest) ↔
      ∃ written, cs = written ++ rest ∧ IsToken quoted bare written a rest := by
  constructor
  · intro h
    unfold readToken at h
    split at h
    · next c cs =>
      split at h
      · next hquote =>
        split at h
        · cases h
        · next hbody =>
          cases h
          obtain ⟨written, text, rfl, hbody, rfl⟩ := readQuoted_sound hbody
          exact ⟨c :: written, rfl, .quoted (isQuote_iff.mp hquote) hbody⟩
      · dsimp only at h
        split at h
        · cases h
        · next hsome =>
          cases h
          refine ⟨(c :: cs).takeWhile isBareChar, ?_, .bare (by simpa using hsome) ?_ ?_⟩
          · exact (List.prefix_iff_eq_append.mp (List.takeWhile_prefix _)).symm
          · exact fun d hd => List.all_eq_true.mp List.all_takeWhile d hd
          · exact stops_drop_takeWhile _
    · cases h
  · rintro ⟨written, rfl, htoken⟩
    cases htoken with
    | @quoted quote written text _ hquote hbody =>
      have hne : quote ≠ '\\' := by rintro rfl; simp at hquote
      rw [List.cons_append, readToken, if_pos (isQuote_iff.mpr hquote),
        readQuoted_complete hne hbody]
      rfl
    | bare hsome hbare hmaximal => exact readToken_bare _ hbare hsome hmaximal

/-- A token begins with a quote or with a character of bare words. -/
theorem IsToken.exists_cons {written : List Char} (h : IsToken quoted bare written a rest) :
    ∃ c w, written = c :: w ∧ (isQuote c || isBareChar c) = true := by
  cases h with
  | quoted hquote _ => exact ⟨_, _, rfl, by rw [isQuote_iff.mpr hquote, Bool.true_or]⟩
  | bare hsome hbare _ =>
    obtain ⟨c, w, rfl⟩ := List.exists_cons_of_ne_nil hsome
    exact ⟨c, w, rfl, by rw [hbare c List.mem_cons_self, Bool.or_true]⟩

/-- Such a character is none of those that structure a text. -/
theorem ne_of_opens {c d : Char} (h : (isQuote c || isBareChar c) = true)
    (hd : (isQuote d || isBareChar d) = false) : c ≠ d := by
  rintro rfl
  exact Bool.noConfusion (h.symm.trans hd)

theorem IsToken.skipSpaces {written : List Char} (h : IsToken quoted bare written a rest)
    (hs : Spaces s) (tail : List Char) : skipSpaces (s ++ (written ++ tail)) = written ++ tail := by
  obtain ⟨c, w, rfl, hc⟩ := h.exists_cons
  rw [skipSpaces_append hs, List.cons_append, skipSpaces_cons _ (ne_of_opens hc rfl)]

/-! ### A text with a derivation is read -/

variable {n : Nat} {v : Value} {items : List Value} {key : String} {record : Record}
  {fields : List (String × Value)}

theorem skipSpaces_token {c : Char} (hs : Spaces s) (hc : c ≠ ' ') (rest : List Char) :
    skipSpaces (s ++ c :: rest) = c :: rest := by
  rw [skipSpaces_append hs, skipSpaces_cons rest hc]

theorem readValue_scalar {c : Char} (n : Nat) (cs : List Char) (hspace : c ≠ ' ')
    (hbrace : c ≠ '\x7b') (hbracket : c ≠ '[') :
    readValue (n + 1) (c :: cs) = readScalar (c :: cs) := by
  rw [readValue, skipSpaces_cons _ hspace]
  split
  · next heq => exact absurd (List.cons.inj heq).1 hbrace
  · next heq => exact absurd (List.cons.inj heq).1 hbracket
  · rfl

theorem readValue_spaces (n : Nat) (hs : Spaces s) (cs : List Char) :
    readValue (n + 1) (s ++ cs) = readValue (n + 1) cs := by
  rw [readValue, readValue, skipSpaces_append hs]

/-- A value does not begin with a closing bracket. -/
theorem IsValue.head?_ne (h : IsValue text v rest) (tail : List Char) :
    (skipSpaces (text ++ tail)).head? ≠ some ']' := by
  cases h with
  | scalar h =>
    obtain ⟨c, w, rfl, hc⟩ := h.exists_cons
    rw [List.cons_append, skipSpaces_cons _ (ne_of_opens hc rfl)]
    exact fun heq => ne_of_opens hc rfl (Option.some.inj heq)
  | compound h =>
    cases h with
    | empty hs _ => simp [skipSpaces_token hs]
    | fields hs _ _ => simp [skipSpaces_token hs]
  | emptyList _ => simp [skipSpaces_cons]
  | list _ _ => simp [skipSpaces_cons]

theorem readFields_spaces (n : Nat) (record : Record) (hs : Spaces s) (cs : List Char) :
    readFields (n + 1) record (s ++ cs) = readFields (n + 1) record cs := by
  rw [readFields, readFields, skipSpaces_append hs]

/-- A compound that does not end at once is read field by field. -/
theorem readBraces_nonempty (n : Nat) (h : (skipSpaces cs).head? ≠ some '\x7d') :
    readBraces (n + 2) cs = readFields (n + 1) [] cs := by
  obtain ⟨s, hs, heq⟩ := exists_spaces cs
  rw [readBraces]
  split
  · next hclose => exact absurd (congrArg List.head? hclose) h
  · conv => rhs; rw [heq, readFields_spaces n [] hs]

/-- A list that is not empty is read item by item. -/
theorem readValue_nonempty (n : Nat) (h : (skipSpaces cs).head? ≠ some ']') :
    readValue (n + 1) ('[' :: cs) =
      match readItems n [] cs with
      | .error f => .error f
      | .ok (items, rest) => .ok (.list items, rest) := by
  simp only [readValue, skipSpaces_cons cs (show '[' ≠ ' ' by decide)]
  split
  · next hclose => exact absurd (congrArg List.head? hclose) h
  · rfl

/-! What an item or a field is followed by tells how the reader goes on. -/

theorem readItems_last (h : readValue n cs = .ok (v, s ++ ']' :: rest)) (hs : Spaces s) :
    readItems (n + 1) items cs = .ok ((v :: items).reverse, rest) := by
  simp only [readItems, h, skipSpaces_token hs (show ']' ≠ ' ' by decide)]

theorem readItems_more (items : List Value) (h : readValue n cs = .ok (v, s ++ ',' :: rest)) (hs : Spaces s) :
    readItems (n + 1) items cs = readItems n (v :: items) rest := by
  simp only [readItems, h, skipSpaces_token hs (show ',' ≠ ' ' by decide)]

variable {cs' s' : List Char}

theorem readFields_last (record : Record)
    (hkey : readKey (skipSpaces cs) = .ok (key, s ++ ':' :: cs')) (hs : Spaces s)
    (h : readValue n cs' = .ok (v, s' ++ '\x7d' :: rest)) (hs' : Spaces s') :
    readFields (n + 1) record cs = .ok (record.insert key v, rest) := by
  simp only [readFields, hkey, skipSpaces_token hs (show ':' ≠ ' ' by decide), h,
    skipSpaces_token hs' (show '\x7d' ≠ ' ' by decide)]

theorem readFields_more (record : Record)
    (hkey : readKey (skipSpaces cs) = .ok (key, s ++ ':' :: cs')) (hs : Spaces s)
    (h : readValue n cs' = .ok (v, s' ++ ',' :: rest)) (hs' : Spaces s') :
    readFields (n + 1) record cs = readFields n (record.insert key v) rest := by
  simp only [readFields, hkey, skipSpaces_token hs (show ':' ≠ ' ' by decide), h,
    skipSpaces_token hs' (show ',' ≠ ' ' by decide)]

/-- Fields are put into the record from the first to the last. -/
def putAll (record : Record) (fields : List (String × Value)) : Record :=
  fields.foldl (fun m (key, v) => m.insert key v) record

theorem putAll_nil (record : Record) : putAll record [] = record := rfl

theorem putAll_cons (record : Record) (key : String) (v : Value) (fields : List (String × Value)) :
    putAll record ((key, v) :: fields) = putAll (record.insert key v) fields := rfl

theorem IsKey.read {k : List Char} (h : IsKey k key rest) (hs : Spaces s) :
    readKey (skipSpaces (s ++ (k ++ rest))) = .ok (key, rest) := by
  rw [h.skipSpaces hs]
  exact readToken_ok_iff.mpr ⟨k, rfl, h⟩

theorem IsItems.head?_ne (h : IsItems text items rest) (tail : List Char) :
    (skipSpaces (text ++ tail)).head? ≠ some ']' := by
  cases h with
  | last h _ => simpa using h.head?_ne _
  | more h _ _ _ => simpa using h.head?_ne _

/-- A field does not begin with a closing brace. -/
theorem IsPair.head?_ne (h : IsPair text key v rest) (tail : List Char) :
    (skipSpaces (text ++ tail)).head? ≠ some '\x7d' := by
  obtain ⟨hkey, _, _, _⟩ := h
  obtain ⟨c, w, rfl, hc⟩ := hkey.exists_cons
  rw [List.cons_append, List.cons_append, skipSpaces_cons _ (ne_of_opens hc rfl)]
  exact fun heq => ne_of_opens hc rfl (Option.some.inj heq)

theorem IsFields.length_pos (h : IsFields text fields rest) : 0 < text.length := by
  cases h <;> simp only [List.length_append, List.length_cons] <;> omega

theorem IsFields.head?_ne (h : IsFields text fields rest) (tail : List Char) :
    (skipSpaces (text ++ tail)).head? ≠ some '\x7d' := by
  cases h with
  | last h _ => simpa using h.head?_ne _
  | more h _ _ _ => simpa using h.head?_ne _

mutual
/-- Two calls for each character of a value are enough to read it. -/
theorem reads_value {text rest : List Char} {v : Value} : IsValue text v rest →
    ∀ (n : Nat) {s : List Char}, Spaces s → 2 * text.length ≤ n →
    readValue n (s ++ (text ++ rest)) = .ok (v, rest)
  | .scalar h, n, s, hs, hn => by
    obtain ⟨c, w, rfl, hc⟩ := h.exists_cons
    obtain ⟨n, rfl⟩ : ∃ m, n = m + 1 := ⟨n - 1, by grind⟩
    rw [readValue_spaces n hs, List.cons_append, readValue_scalar n _ (ne_of_opens hc rfl)
      (ne_of_opens hc rfl) (ne_of_opens hc rfl)]
    exact readToken_ok_iff.mpr ⟨_, rfl, h⟩
  | .compound h, n, s, hs, hn => by
    obtain ⟨s', body, hs', rfl, hread⟩ := reads_compound h
    obtain ⟨n, rfl⟩ : ∃ m, n = m + 1 := ⟨n - 1, by grind⟩
    rw [readValue_spaces n hs, List.append_assoc, readValue_spaces n hs', List.cons_append,
      readValue, skipSpaces_cons _ (by decide)]
    simp only [hread n (by grind)]
    rfl
  | .emptyList hs', n, s, hs, hn => by
    obtain ⟨n, rfl⟩ : ∃ m, n = m + 1 := ⟨n - 1, by grind⟩
    rw [readValue_spaces n hs, List.cons_append, List.append_assoc, List.singleton_append,
      readValue, skipSpaces_cons _ (by decide)]
    simp only [skipSpaces_token hs' (show ']' ≠ ' ' by decide)]
  | .list hs' h, n, s, hs, hn => by
    obtain ⟨n, rfl⟩ : ∃ m, n = m + 1 := ⟨n - 1, by grind⟩
    have hitems := reads_items h n [] hs' (by grind)
    rw [readValue_spaces n hs, List.cons_append, List.append_assoc,
      readValue_nonempty n (by rw [skipSpaces_append hs']; exact h.head?_ne rest), hitems]
    rfl

theorem reads_items {text rest : List Char} {new : List Value} : IsItems text new rest →
    ∀ (n : Nat) (items : List Value) {s : List Char}, Spaces s → 2 * text.length ≤ n →
    readItems n items (s ++ (text ++ rest)) = .ok (items.reverse ++ new, rest)
  | .last h hs', n, items, s, hs, hn => by
    obtain ⟨n, rfl⟩ : ∃ m, n = m + 1 := ⟨n - 1, by grind⟩
    have hvalue := reads_value h n hs (by grind)
    simpa using readItems_last hvalue hs'
  | .more h hs' hs'' hmore, n, items, s, hs, hn => by
    obtain ⟨n, rfl⟩ : ∃ m, n = m + 1 := ⟨n - 1, by grind⟩
    have hvalue := reads_value h n hs (by grind)
    have hitems := fun v => reads_items hmore n (v :: items) hs'' (by grind)
    simpa [hitems] using readItems_more items hvalue hs'

theorem reads_fields {text rest : List Char} {fields : List (String × Value)} :
    IsFields text fields rest →
    ∀ (n : Nat) (record : Record) {s : List Char}, Spaces s → 2 * text.length ≤ n →
    readFields n record (s ++ (text ++ rest)) = .ok (putAll record fields, rest)
  | .last (.mk hkey hs₁ hs₂ hvalue) hs₃, n, record, s, hs, hn => by
    obtain ⟨n, rfl⟩ : ∃ m, n = m + 1 := ⟨n - 1, by grind⟩
    have hvalue := reads_value hvalue n hs₂ (by grind)
    simpa [putAll_cons, putAll_nil] using readFields_last record (hkey.read hs) hs₁ hvalue hs₃
  | .more (.mk hkey hs₁ hs₂ hvalue) hs₃ hs₄ hmore, n, record, s, hs, hn => by
    obtain ⟨n, rfl⟩ : ∃ m, n = m + 1 := ⟨n - 1, by grind⟩
    have hvalue := reads_value hvalue n hs₂ (by grind)
    have hfields := fun record => reads_fields hmore n record hs₄ (by grind)
    simpa [putAll_cons, hfields] using readFields_more record (hkey.read hs) hs₁ hvalue hs₃

theorem reads_compound {text rest : List Char} {fields : List (String × Value)} :
    IsCompound text fields rest →
    ∃ s body, Spaces s ∧ text = s ++ '\x7b' :: body ∧ ∀ n, 2 * body.length + 1 ≤ n →
      readBraces n (body ++ rest) = .ok (putAll [] fields, rest)
  | @IsCompound.empty s s' _ hs hs' => ⟨s, s' ++ ['\x7d'], hs, rfl, fun n hn => by
      obtain ⟨n, rfl⟩ : ∃ m, n = m + 1 := ⟨n - 1, by grind⟩
      rw [readBraces, List.append_assoc, List.singleton_append, skipSpaces_token hs' (by decide)]
      rfl⟩
  | @IsCompound.fields s s' text _ _ hs hs' h => ⟨s, s' ++ text, hs, rfl, fun n hn => by
      -- one call for the braces and one for the first field
      have hpos := h.length_pos
      obtain ⟨n, rfl⟩ : ∃ m, n = m + 2 := ⟨n - 2, by grind⟩
      rw [List.append_assoc, readBraces_nonempty n (by rw [skipSpaces_append hs']; exact h.head?_ne rest),
        reads_fields h (n + 1) [] hs' (by grind)]⟩
end

/-! ### What is read has a derivation -/

/-- A reader's results at one amount of fuel have derivations. -/
structure Derives (n : Nat) : Prop where
  value {cs rest : List Char} {v : Value} (h : readValue n cs = .ok (v, rest)) :
    ∃ s text, Spaces s ∧ cs = s ++ (text ++ rest) ∧ IsValue text v rest
  items {cs rest : List Char} {before items : List Value}
    (h : readItems n before cs = .ok (items, rest)) :
    ∃ s text new, Spaces s ∧ cs = s ++ (text ++ rest) ∧ IsItems text new rest ∧
      items = before.reverse ++ new
  braces {cs rest : List Char} {r : Record} (h : readBraces n cs = .ok (r, rest)) :
    ∃ body fields, cs = body ++ rest ∧ IsCompound ('\x7b' :: body) fields rest ∧
      r = NameMap.ofList fields
  fields {cs rest : List Char} {record r : Record} (h : readFields n record cs = .ok (r, rest)) :
    ∃ s text fields, Spaces s ∧ cs = s ++ (text ++ rest) ∧ IsFields text fields rest ∧
      r = putAll record fields

theorem Derives.value_succ (ih : Derives n) (h : readValue (n + 1) cs = .ok (v, rest)) :
    ∃ s text, Spaces s ∧ cs = s ++ (text ++ rest) ∧ IsValue text v rest := by
  obtain ⟨s, hs, heq⟩ := exists_spaces cs
  rw [readValue] at h
  split at h
  · next body hopen =>
    split at h
    · cases h
    · next hbraces =>
      cases h
      obtain ⟨body, fields, rfl, hcompound, rfl⟩ := ih.braces hbraces
      exact ⟨s, '\x7b' :: body, hs, by rw [heq, hopen, List.cons_append], .compound hcompound⟩
  · next body hopen =>
    obtain ⟨s', hs', heq'⟩ := exists_spaces body
    split at h
    · next hclose =>
      cases h
      refine ⟨s, '[' :: (s' ++ [']']), hs, ?_, .emptyList hs'⟩
      rw [heq, hopen, heq', hclose]
      simp
    · split at h
      · cases h
      · next hitems =>
        cases h
        obtain ⟨s', text, items, hs', rfl, hderives, rfl⟩ := ih.items hitems
        refine ⟨s, '[' :: (s' ++ text), hs, ?_, .list hs' hderives⟩
        rw [heq, hopen]
        simp
  · obtain ⟨text, htext, hscalar⟩ := readToken_ok_iff.mp h
    exact ⟨s, text, hs, htext ▸ heq, .scalar hscalar⟩

theorem Derives.items_succ (ih : Derives n) {before : List Value}
    (h : readItems (n + 1) before cs = .ok (items, rest)) :
    ∃ s text new, Spaces s ∧ cs = s ++ (text ++ rest) ∧ IsItems text new rest ∧
      items = before.reverse ++ new := by
  rw [readItems] at h
  split at h
  · cases h
  · next v after hvalue =>
    obtain ⟨s, text, hs, rfl, hderives⟩ := ih.value hvalue
    obtain ⟨s', hs', heq⟩ := exists_spaces after
    split at h
    · next hclose =>
      cases h
      rw [hclose] at heq
      subst heq
      exact ⟨s, text ++ (s' ++ [']']), [v], hs, by simp, .last hderives hs', by simp⟩
    · next more hcomma =>
      obtain ⟨s'', text', new, hs'', rfl, hmore, rfl⟩ := ih.items h
      rw [hcomma] at heq
      subst heq
      exact ⟨s, text ++ (s' ++ ',' :: (s'' ++ text')), v :: new, hs, by simp,
        .more hderives hs' hs'' hmore, by simp⟩
    · cases h

theorem Derives.braces_succ (ih : Derives n) {r : Record} (h : readBraces (n + 1) cs = .ok (r, rest)) :
    ∃ body fields, cs = body ++ rest ∧ IsCompound ('\x7b' :: body) fields rest ∧
      r = NameMap.ofList fields := by
  obtain ⟨s, hs, heq⟩ := exists_spaces cs
  rw [readBraces] at h
  split at h
  · next hclose =>
    cases h
    rw [hclose] at heq
    exact ⟨s ++ ['\x7d'], [], by simp [heq], .empty spaces_nil hs, rfl⟩
  · -- the spaces have been skipped already, so those of the first field are none
    obtain ⟨s', text, fields, hs', hfields, hderives, rfl⟩ := ih.fields h
    exact ⟨(s ++ s') ++ text, fields, by rw [heq, hfields]; simp,
      .fields spaces_nil (hs.append hs') hderives, rfl⟩

theorem Derives.fields_succ (ih : Derives n) {record r : Record}
    (h : readFields (n + 1) record cs = .ok (r, rest)) :
    ∃ s text fields, Spaces s ∧ cs = s ++ (text ++ rest) ∧ IsFields text fields rest ∧
      r = putAll record fields := by
  obtain ⟨s, hs, heq⟩ := exists_spaces cs
  rw [readFields] at h
  split at h
  · cases h
  · next key after hread =>
    obtain ⟨k, hk, hkey⟩ := readToken_ok_iff.mp hread
    rw [hk] at heq
    obtain ⟨s', hs', heq'⟩ := exists_spaces after
    split at h
    · next cs' hcolon =>
      rw [hcolon] at heq'
      subst heq'
      split at h
      · cases h
      · next v after hvalue =>
        obtain ⟨s'', text, hs'', rfl, hderives⟩ := ih.value hvalue
        obtain ⟨s₃, hs₃, heq'⟩ := exists_spaces after
        -- what comes behind the value tells whether the field is the last
        split at h
        · next hclose =>
          cases h
          rw [hclose] at heq'
          subst heq'
          exact ⟨s, _, _, hs, by simp [heq], .last (.mk hkey hs' hs'' hderives) hs₃, rfl⟩
        · next more hcomma =>
          obtain ⟨s₄, text', fields, hs₄, rfl, hmore, rfl⟩ := ih.fields h
          rw [hcomma] at heq'
          subst heq'
          exact ⟨s, _, _, hs, by simp [heq], .more (.mk hkey hs' hs'' hderives) hs₃ hs₄ hmore, rfl⟩
        · cases h
    · cases h

theorem derives (n : Nat) : Derives n := by
  induction n with
  | zero =>
    -- without fuel nothing is read
    constructor
    · intro cs rest v h
      rw [readValue] at h
      cases h
    · intro cs rest before items h
      rw [readItems] at h
      cases h
    · intro cs rest r h
      rw [readBraces] at h
      cases h
    · intro cs rest record r h
      rw [readFields] at h
      cases h
  | succ n ih => exact ⟨ih.value_succ, ih.items_succ, ih.braces_succ, ih.fields_succ⟩

/-- Spaces in front of a compound belong to it. -/
theorem IsCompound.spaces (h : IsCompound text fields rest) (hs : Spaces s) :
    IsCompound (s ++ text) fields rest := by
  cases h with
  | empty hs₁ hs₂ => exact List.append_assoc .. ▸ .empty (hs.append hs₁) hs₂
  | fields hs₁ hs₂ h => exact List.append_assoc .. ▸ .fields (hs.append hs₁) hs₂ h

/-- A compound is read exactly where one can be derived. -/
theorem read_ok_iff :
    read cs = .ok (record, rest) ↔
      ∃ text fields, cs = text ++ rest ∧ IsCompound text fields rest ∧
        record = NameMap.ofList fields := by
  constructor
  · intro h
    obtain ⟨s, hs, heq⟩ := exists_spaces cs
    unfold read at h
    split at h
    · next hopen =>
      obtain ⟨body, fields, rfl, hderives, rfl⟩ := (derives _).braces h
      exact ⟨s ++ '\x7b' :: body, fields, by rw [heq, hopen]; simp, hderives.spaces hs, rfl⟩
    · cases h
  · rintro ⟨text, fields, rfl, hderives, rfl⟩
    obtain ⟨s, body, hs, rfl, hread⟩ := reads_compound hderives
    rw [read, List.append_assoc, List.cons_append, skipSpaces_token hs (by decide)]
    exact hread _ (by grind [fuelFor])

/-! ### What follows a compound -/

theorem IsToken.congr_rest {written rest' : List Char} (h : IsToken quoted bare written a rest)
    (hstops : Stops rest → Stops rest') : IsToken quoted bare written a rest' := by
  cases h with
  | quoted hquote h => exact .quoted hquote h
  | bare hsome hbare hmaximal => exact .bare hsome hbare (hstops hmaximal)

mutual
/-- Of what follows a value only that matters which ends a bare word. -/
theorem IsValue.congr_rest {text rest : List Char} {v : Value} : IsValue text v rest →
    ∀ {rest'}, (Stops rest → Stops rest') → IsValue text v rest'
  | .scalar h, _, hstops => .scalar (h.congr_rest hstops)
  | .compound h, rest', _ => .compound (h.any_rest rest')
  | .emptyList hs, _, _ => .emptyList hs
  | .list hs h, rest', _ => .list hs (h.any_rest rest')

theorem IsItems.any_rest {text rest : List Char} {items : List Value} : IsItems text items rest →
    ∀ rest', IsItems text items rest'
  | .last h hs, _ => .last (h.congr_rest fun _ => stops_spaces hs rfl _) hs
  | .more h hs hs' hmore, rest' =>
    .more (h.congr_rest fun _ => stops_spaces hs rfl _) hs hs' (hmore.any_rest rest')

theorem IsPair.congr_rest {text rest : List Char} {key : String} {v : Value} :
    IsPair text key v rest → ∀ {rest'}, (Stops rest → Stops rest') → IsPair text key v rest'
  | .mk hkey hs hs' h, _, hstops =>
    .mk (hkey.congr_rest fun _ => stops_spaces hs rfl _) hs hs' (h.congr_rest hstops)

theorem IsFields.any_rest {text rest : List Char} {fields : List (String × Value)} :
    IsFields text fields rest → ∀ rest', IsFields text fields rest'
  | .last h hs, _ => .last (h.congr_rest fun _ => stops_spaces hs rfl _) hs
  | .more h hs hs' hmore, rest' =>
    .more (h.congr_rest fun _ => stops_spaces hs rfl _) hs hs' (hmore.any_rest rest')

/-- A compound is one whatever follows it. -/
theorem IsCompound.any_rest {text rest : List Char} {fields : List (String × Value)} :
    IsCompound text fields rest → ∀ rest', IsCompound text fields rest'
  | .empty hs hs', _ => .empty hs hs'
  | .fields hs hs' h, rest' => .fields hs hs' (h.any_rest rest')
end

end Trampoline.Compound
