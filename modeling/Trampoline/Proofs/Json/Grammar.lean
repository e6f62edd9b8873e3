import Trampoline.Json.Reader

/-! The grammar of JSON.

    document = gap value gap
    value    = 'null' | 'true' | 'false' | number | text
             | '[' gap (']' | value (gap ',' gap value)* gap ']')
             | '{' gap ('}' | member (gap ',' gap member)* gap '}')
    member   = text gap ':' gap value
    number   = '-'? ('0' | [1-9] digit*) ('.' digit+)? ([eE] [+-]? digit+)?
    text     = '"' (plain | '\' letter | '\u' hex hex hex hex)* '"'

A gap is any run of the four blanks. A text is the code points that its units make, two halves of a
surrogate pair being one of them.

What follows a value is a gap, a comma, a closing bracket or the end, and none of these is a
character of a number. So the reader finds the value of every document (`parse?_of_isDocument`): it
goes down the grammar with less and less fuel, and two calls for each character of a value are
enough (`reads_value`). -/
namespace Trampoline.Json

/-! ### The grammar -/

/-- Blanks between tokens, or nothing. -/
def Gap (cs : List Char) : Prop := ∀ c ∈ cs, isGap c = true

/-- Digits, one or more. -/
def Digits (cs : List Char) : Prop := cs ≠ [] ∧ ∀ c ∈ cs, c.isDigit = true

inductive IsWhole : List Char → Prop where
  | zero : IsWhole ['0']
  | digits {first : Char} {cs : List Char} (hfirst : first ≠ '0') (h : Digits (first :: cs)) :
      IsWhole (first :: cs)

inductive IsFraction : List Char → Prop where
  | none : IsFraction []
  | digits {cs : List Char} (h : Digits cs) : IsFraction ('.' :: cs)

inductive IsExponent : List Char → Prop where
  | none : IsExponent []
  | bare {mark : Char} {cs : List Char} (hmark : mark = 'e' ∨ mark = 'E') (h : Digits cs) :
      IsExponent (mark :: cs)
  | signed {mark sign : Char} {cs : List Char} (hmark : mark = 'e' ∨ mark = 'E')
      (hsign : sign = '+' ∨ sign = '-') (h : Digits cs) : IsExponent (mark :: sign :: cs)

/-- A number without its sign. -/
inductive IsMagnitude : List Char → Prop where
  | mk {whole fraction exponent : List Char} (hwhole : IsWhole whole)
      (hfraction : IsFraction fraction) (hexponent : IsExponent exponent) :
      IsMagnitude (whole ++ fraction ++ exponent)

inductive IsNumber : List Char → Prop where
  | positive {cs : List Char} (h : IsMagnitude cs) : IsNumber cs
  | negative {cs : List Char} (h : IsMagnitude cs) : IsNumber ('-' :: cs)

/-- The inside of a text, and the units it stands for. -/
inductive IsUnits : List Char → List Nat → Prop where
  | nil : IsUnits [] []
  | plain {c : Char} {body : List Char} {units : List Nat} (hquote : c ≠ '"') (hescape : c ≠ '\\')
      (hlow : 0x20 ≤ c.toNat) (h : IsUnits body units) : IsUnits (c :: body) (c.toNat :: units)
  | letter {c : Char} {n : Nat} {body : List Char} {units : List Nat} (hc : escaped? c = some n)
      (h : IsUnits body units) : IsUnits ('\\' :: c :: body) (n :: units)
  | hex {a b c d : Char} {n : Nat} {body : List Char} {units : List Nat}
      (hn : unit? a b c d = some n) (h : IsUnits body units) :
      IsUnits ('\\' :: 'u' :: a :: b :: c :: d :: body) (n :: units)

inductive IsText : List Char → List Nat → Prop where
  | mk {body : List Char} {units : List Nat} (h : IsUnits body units) :
      IsText ('"' :: (body ++ ['"'])) (pair units)

mutual
inductive IsValue : List Char → Json → Prop where
  | null : IsValue ['n', 'u', 'l', 'l'] .null
  | yes : IsValue ['t', 'r', 'u', 'e'] (.bool true)
  | no : IsValue ['f', 'a', 'l', 's', 'e'] (.bool false)
  | number {literal : List Char} (h : IsNumber literal) : IsValue literal (.number literal)
  | text {written : List Char} {points : List Nat} (h : IsText written points) :
      IsValue written (.text points)
  | emptyArray {s : List Char} (hs : Gap s) : IsValue ('[' :: (s ++ [']'])) (.array [])
  | array {s body : List Char} {items : List Json} (hs : Gap s) (h : IsItems body items) :
      IsValue ('[' :: (s ++ body)) (.array items)
  | emptyObject {s : List Char} (hs : Gap s) : IsValue ('\x7b' :: (s ++ ['\x7d'])) (.object [])
  | object {s body : List Char} {fields : List (List Nat × Json)} (hs : Gap s)
      (h : IsFields body fields) : IsValue ('\x7b' :: (s ++ body)) (.object fields)

/-- The items of an array, one or more, and its closing bracket. -/
inductive IsItems : List Char → List Json → Prop where
  | last {item s : List Char} {v : Json} (h : IsValue item v) (hs : Gap s) :
      IsItems (item ++ (s ++ [']'])) [v]
  | more {item s s' more : List Char} {v : Json} {items : List Json} (h : IsValue item v)
      (hs : Gap s) (hs' : Gap s') (hmore : IsItems more items) :
      IsItems (item ++ (s ++ ',' :: (s' ++ more))) (v :: items)

/-- A key and its value. -/
inductive IsMember : List Char → List Nat → Json → Prop where
  | mk {k s s' value : List Char} {key : List Nat} {v : Json} (hkey : IsText k key) (hs : Gap s)
      (hs' : Gap s') (h : IsValue value v) : IsMember (k ++ (s ++ ':' :: (s' ++ value))) key v

/-- The members of an object, one or more, and its closing brace. -/
inductive IsFields : List Char → List (List Nat × Json) → Prop where
  | last {member s : List Char} {key : List Nat} {v : Json} (h : IsMember member key v)
      (hs : Gap s) : IsFields (member ++ (s ++ ['\x7d'])) [(key, v)]
  | more {member s s' more : List Char} {key : List Nat} {v : Json}
      {fields : List (List Nat × Json)} (h : IsMember member key v) (hs : Gap s) (hs' : Gap s')
      (hmore : IsFields more fields) :
      IsFields (member ++ (s ++ ',' :: (s' ++ more))) ((key, v) :: fields)
end

/-- A text that is one value. -/
def IsDocument (text : List Char) (v : Json) : Prop :=
  ∃ s body s', Gap s ∧ Gap s' ∧ IsValue body v ∧ text = s ++ (body ++ s')

/-! ### Gaps, and what ends a number -/

variable {s cs rest : List Char} {c : Char}

theorem gap_nil : Gap [] := fun _ hc => nomatch hc

theorem skipGaps_append (hs : Gap s) (cs : List Char) : skipGaps (s ++ cs) = skipGaps cs :=
  List.dropWhile_append_of_pos fun c hc => hs c hc

theorem skipGaps_token (hs : Gap s) (hc : isGap c = false) (rest : List Char) :
    skipGaps (s ++ c :: rest) = c :: rest := by
  rw [skipGaps_append hs, skipGaps, List.dropWhile_cons_of_neg (by simp [hc])]

/-- What is skipped is a gap. -/
theorem exists_gap (cs : List Char) : ∃ s, Gap s ∧ cs = s ++ skipGaps cs :=
  ⟨cs.takeWhile isGap, fun c hc => List.all_eq_true.mp List.all_takeWhile c hc,
    List.takeWhile_append_dropWhile.symm⟩

/-- The characters that can make a number longer. -/
def isNumberChar (c : Char) : Bool := c.isDigit || c == '.' || c == 'e' || c == 'E'

/-- What follows a number ends it. -/
def Stops (rest : List Char) : Prop := ∀ c ∈ rest.head?, isNumberChar c = false

theorem stops_cons (rest : List Char) (h : isNumberChar c = false) : Stops (c :: rest) := by
  rintro d ⟨⟩
  exact h

theorem stops_nil : Stops [] := fun _ hc => nomatch hc

theorem isNumberChar_of_isGap (h : isGap c = true) : isNumberChar c = false := by
  simp only [isGap, Bool.or_eq_true, beq_iff_eq] at h
  rcases h with ((rfl | rfl) | rfl) | rfl <;> rfl

/-- A gap in front of what ends a number ends it as well. -/
theorem Stops.gap (h : Stops rest) (hs : Gap s) : Stops (s ++ rest) := by
  cases s with
  | nil => exact h
  | cons c s => exact stops_cons _ (isNumberChar_of_isGap (hs c List.mem_cons_self))

/-! ### Numbers -/

theorem readDigits_append {digits : List Char} (h : Digits digits)
    (hrest : ∀ c ∈ rest.head?, c.isDigit = false) :
    readDigits (digits ++ rest) = some (digits, rest) := by
  have hend : rest.takeWhile Char.isDigit = [] := by
    cases rest with
    | nil => rfl
    | cons c rest => rw [List.takeWhile_cons_of_neg (by simp [hrest c rfl])]
  have htake : (digits ++ rest).takeWhile Char.isDigit = digits := by
    rw [List.takeWhile_append_of_pos h.2, hend, List.append_nil]
  simp [readDigits, htake, h.1]

theorem not_isDigit_of_stops (h : Stops rest) : ∀ c ∈ rest.head?, c.isDigit = false :=
  fun c hc => by
    have := h c hc
    simp only [isNumberChar, Bool.or_eq_false_iff] at this
    exact this.1.1.1

theorem readExponent_append {exponent : List Char} (h : IsExponent exponent) (hrest : Stops rest) :
    readExponent (exponent ++ rest) = some (exponent, rest) := by
  have isMark : ∀ {mark : Char}, mark = 'e' ∨ mark = 'E' → (mark == 'e' || mark == 'E') = true := by
    rintro mark (rfl | rfl) <;> rfl
  cases h with
  | none =>
    cases rest with
    | nil => rfl
    | cons c rest =>
      have hc := hrest c rfl
      simp only [isNumberChar, Bool.or_eq_false_iff] at hc
      simp [readExponent, hc.1.2, hc.2]
  | @bare mark cs hmark h =>
    have hread := readDigits_append h (not_isDigit_of_stops hrest)
    obtain ⟨d, ds, rfl⟩ := List.exists_cons_of_ne_nil h.1
    have hd := h.2 d List.mem_cons_self
    have hplus : d ≠ '+' := by rintro rfl; exact absurd hd (by decide)
    have hminus : d ≠ '-' := by rintro rfl; exact absurd hd (by decide)
    rw [List.cons_append] at hread
    rw [List.cons_append, List.cons_append, readExponent, if_pos (isMark hmark), hread]
    · rfl
    · exact fun _ heq => hplus (List.cons.inj heq).1
    · exact fun _ heq => hminus (List.cons.inj heq).1
  | signed hmark hsign h =>
    have hread := readDigits_append h (not_isDigit_of_stops hrest)
    rcases hsign with rfl | rfl <;>
    · rw [List.cons_append, List.cons_append, readExponent, if_pos (isMark hmark), hread]
      rfl

/-- No digit and no point begins an exponent or what ends a number. -/
theorem head?_exponent_append {exponent : List Char} (h : IsExponent exponent)
    (hrest : Stops rest) : ∀ c ∈ (exponent ++ rest).head?, c.isDigit = false ∧ c ≠ '.' := by
  have hmark : ∀ mark : Char, mark = 'e' ∨ mark = 'E' → mark.isDigit = false ∧ mark ≠ '.' := by
    rintro mark (rfl | rfl) <;> exact ⟨rfl, by decide⟩
  cases h with
  | none =>
    intro c hc
    have := hrest c hc
    simp only [isNumberChar, Bool.or_eq_false_iff, beq_eq_false_iff_ne] at this
    exact ⟨this.1.1.1, this.1.1.2⟩
  | bare h _ =>
    rintro c ⟨⟩
    exact hmark _ h
  | signed h _ _ =>
    rintro c ⟨⟩
    exact hmark _ h

theorem readFraction_append {fraction : List Char} (h : IsFraction fraction)
    (hrest : ∀ c ∈ rest.head?, c.isDigit = false ∧ c ≠ '.') :
    readFraction (fraction ++ rest) = some (fraction, rest) := by
  cases h with
  | none =>
    rw [List.nil_append, readFraction]
    rintro tail rfl
    exact (hrest '.' rfl).2 rfl
  | digits h =>
    rw [List.cons_append, readFraction, readDigits_append h fun c hc => (hrest c hc).1]
    rfl

theorem readWhole_append {whole : List Char} (h : IsWhole whole)
    (hrest : ∀ c ∈ rest.head?, c.isDigit = false) :
    readWhole (whole ++ rest) = some (whole, rest) := by
  cases h with
  | zero => rfl
  | digits hfirst h =>
    have hread := readDigits_append h hrest
    rw [List.cons_append] at hread ⊢
    rw [readWhole, hread]
    rintro tail heq
    exact hfirst (List.cons.inj heq).1

theorem readMagnitude_append (h : IsMagnitude cs) (hrest : Stops rest) :
    readMagnitude (cs ++ rest) = some (cs, rest) := by
  obtain @⟨whole, fraction, exponent, hwhole, hfraction, hexponent⟩ := h
  have hpart := head?_exponent_append hexponent hrest
  have hwholeEnd : ∀ c ∈ (fraction ++ (exponent ++ rest)).head?, c.isDigit = false := by
    cases hfraction with
    | none => exact fun c hc => (hpart c hc).1
    | digits _ => rintro c ⟨⟩; rfl
  rw [readMagnitude, List.append_assoc, List.append_assoc, readWhole_append hwhole hwholeEnd]
  simp [readFraction_append hfraction hpart, readExponent_append hexponent hrest]

theorem IsMagnitude.exists_cons (h : IsMagnitude cs) : ∃ d ds, cs = d :: ds ∧ d.isDigit = true := by
  obtain ⟨hwhole, -, -⟩ := h
  cases hwhole with
  | zero => exact ⟨_, _, rfl, rfl⟩
  | digits _ h => exact ⟨_, _, rfl, h.2 _ List.mem_cons_self⟩

theorem readNumber_append (h : IsNumber cs) (hrest : Stops rest) :
    readNumber (cs ++ rest) = some (cs, rest) := by
  cases h with
  | positive h =>
    have hread := readMagnitude_append h hrest
    obtain ⟨d, ds, rfl, hd⟩ := h.exists_cons
    rw [List.cons_append] at hread ⊢
    rw [readNumber, hread]
    rintro tail heq
    obtain rfl := (List.cons.inj heq).1
    exact absurd hd (by decide)
  | negative h =>
    rw [List.cons_append, readNumber, readMagnitude_append h hrest]
    rfl

/-! ### Texts -/

theorem readUnits_letter {n : Nat} (hc : escaped? c = some n) (taken : List Nat)
    (rest : List Char) : readUnits taken ('\\' :: c :: rest) = readUnits (n :: taken) rest := by
  have hne : c ≠ 'u' := by rintro rfl; cases hc
  rw [readUnits, hc]
  intro a b c' d rest' heq
  exact absurd heq hne

theorem readUnits_plain (hquote : c ≠ '"') (hescape : c ≠ '\\') (hlow : 0x20 ≤ c.toNat)
    (taken : List Nat) (rest : List Char) :
    readUnits taken (c :: rest) = readUnits (c.toNat :: taken) rest := by
  rw [readUnits]
  · simp [hquote, hescape, Nat.not_lt_of_le hlow]
  · intro _ _ _ _ _ heq
    exact absurd heq hescape
  · intro _ _ heq
    exact absurd heq hescape

theorem readUnits_append {body : List Char} {units : List Nat} (h : IsUnits body units)
    (taken : List Nat) (rest : List Char) :
    readUnits taken (body ++ '"' :: rest) = some (taken.reverse ++ units, rest) := by
  induction h generalizing taken with
  | nil => simp [readUnits]
  | plain hquote hescape hlow _ ih =>
    rw [List.cons_append, readUnits_plain hquote hescape hlow, ih]
    simp
  | letter hc _ ih =>
    rw [List.cons_append, List.cons_append, readUnits_letter hc, ih]
    simp
  | hex hn _ ih =>
    simp only [List.cons_append]
    rw [readUnits, hn]
    simp [ih]

theorem IsText.exists_cons {written : List Char} {points : List Nat} (h : IsText written points) :
    ∃ body, written = '"' :: body ∧ ∀ rest, readText (body ++ rest) = some (points, rest) := by
  obtain @⟨body, units, h⟩ := h
  refine ⟨_, rfl, fun rest => ?_⟩
  rw [readText, List.append_assoc, List.singleton_append, readUnits_append h]
  rfl

/-! ### Values -/

variable {n : Nat} {v : Json}

theorem readValue_gap (n : Nat) (hs : Gap s) (cs : List Char) :
    readValue n (s ++ cs) = readValue n cs := by
  cases n with
  | zero => rfl
  | succ n => rw [readValue, readValue, skipGaps_append hs]

/-- A number begins with a minus sign or a digit. -/
theorem IsNumber.exists_cons (h : IsNumber cs) :
    ∃ d ds, cs = d :: ds ∧ (d = '-' ∨ d.isDigit = true) := by
  cases h with
  | positive h =>
    obtain ⟨d, ds, rfl, hd⟩ := h.exists_cons
    exact ⟨d, ds, rfl, .inr hd⟩
  | negative h => exact ⟨_, _, rfl, .inl rfl⟩

/-- Such a character begins no other value, and is no blank. -/
theorem readValue_number {d : Char} (hd : d = '-' ∨ d.isDigit = true) (n : Nat)
    (cs : List Char) : readValue (n + 1) (d :: cs) =
      (readNumber (d :: cs)).map fun (literal, rest) => (.number literal, rest) := by
  have hne : ∀ e : Char, e ≠ '-' → e.isDigit = false → d ≠ e := by
    rintro e hminus hdigit rfl
    rcases hd with rfl | hd
    · exact hminus rfl
    · rw [hdigit] at hd
      cases hd
  have hgap : isGap d = false := by
    simp [isGap, hne ' ' (by decide) rfl, hne '\n' (by decide) rfl, hne '\t' (by decide) rfl,
      hne '\r' (by decide) rfl]
  rw [readValue, show skipGaps (d :: cs) = d :: cs from skipGaps_token gap_nil hgap cs]
  split
  case h_7 => rfl
  all_goals next heq => exact absurd (List.cons.inj heq).1 (hne _ (by decide) rfl)

/-- A value begins with a character that is no blank and closes no bracket. -/
theorem IsValue.exists_cons {text : List Char} (h : IsValue text v) :
    ∃ d ds, text = d :: ds ∧ isGap d = false ∧ d ≠ ']' := by
  cases h with
  | number h =>
    obtain ⟨d, ds, rfl, hd⟩ := h.exists_cons
    refine ⟨d, ds, rfl, ?_, ?_⟩
    · rcases hd with rfl | hd
      · rfl
      · rw [Bool.eq_false_iff]
        intro hgap
        have := isNumberChar_of_isGap hgap
        simp [isNumberChar, hd] at this
    · rintro rfl
      rcases hd with hd | hd <;> exact absurd hd (by decide)
  | text h =>
    obtain ⟨body, rfl, -⟩ := h.exists_cons
    exact ⟨_, _, rfl, rfl, by decide⟩
  | _ => exact ⟨_, _, rfl, rfl, by decide⟩

theorem IsItems.head?_ne {body : List Char} {items : List Json} (h : IsItems body items)
    (rest : List Char) : (skipGaps (body ++ rest)).head? ≠ some ']' := by
  have hvalue : ∀ {item : List Char} {v : Json} (tail : List Char), IsValue item v →
      (skipGaps (item ++ tail)).head? ≠ some ']' := by
    intro item v tail h
    obtain ⟨d, ds, rfl, hgap, hne⟩ := h.exists_cons
    rw [List.cons_append, show skipGaps (d :: _) = _ from skipGaps_token gap_nil hgap _]
    exact fun heq => hne (Option.some.inj heq)
  cases h with
  | last h _ => simpa using hvalue _ h
  | more h _ _ _ => simpa using hvalue _ h

theorem IsMember.exists_cons {member : List Char} {key : List Nat} (h : IsMember member key v) :
    ∃ cs, member = '"' :: cs := by
  obtain ⟨hkey, _, _, _⟩ := h
  obtain ⟨body, rfl, -⟩ := hkey.exists_cons
  exact ⟨_, rfl⟩

/-- The fields of an object begin with a quote, so with no closing brace. -/
theorem IsFields.head?_ne {body : List Char} {fields : List (List Nat × Json)}
    (h : IsFields body fields) (rest : List Char) :
    (skipGaps (body ++ rest)).head? ≠ some '\x7d' := by
  have hquote (cs : List Char) : skipGaps ('"' :: cs) = '"' :: cs := skipGaps_token gap_nil rfl cs
  cases h with
  | last h _ =>
    obtain ⟨cs, rfl⟩ := h.exists_cons
    simp [hquote]
  | more h _ _ _ =>
    obtain ⟨cs, rfl⟩ := h.exists_cons
    simp [hquote]

theorem readItems_skipGaps (n : Nat) (items : List Json) (cs : List Char) :
    readItems n items (skipGaps cs) = readItems n items cs := by
  obtain ⟨s, hs, heq⟩ := exists_gap cs
  cases n with
  | zero => rfl
  | succ n =>
    have hvalue : readValue n (skipGaps cs) = readValue n cs := by
      conv => rhs; rw [heq, readValue_gap n hs]
    rw [readItems, readItems, hvalue]

theorem readFields_skipGaps (n : Nat) (fields : List (List Nat × Json)) (cs : List Char) :
    readFields n fields (skipGaps cs) = readFields n fields cs := by
  obtain ⟨s, hs, heq⟩ := exists_gap cs
  have hskip : skipGaps (skipGaps cs) = skipGaps cs := by
    conv => rhs; rw [heq, skipGaps_append hs]
  cases n with
  | zero => rfl
  | succ n => rw [readFields, readFields, hskip]

/-- An array that does not end at once is read item by item. -/
theorem readValue_array (n : Nat) (h : (skipGaps cs).head? ≠ some ']') :
    readValue (n + 1) ('[' :: cs) =
      (readItems n [] cs).map fun (items, rest) => (.array items, rest) := by
  rw [readValue, show skipGaps ('[' :: cs) = '[' :: cs from skipGaps_token gap_nil rfl cs]
  simp only
  split
  · next hclose => exact absurd (congrArg List.head? hclose) h
  · rw [readItems_skipGaps]

/-- An object that does not end at once is read field by field. -/
theorem readValue_object (n : Nat) (h : (skipGaps cs).head? ≠ some '\x7d') :
    readValue (n + 1) ('\x7b' :: cs) =
      (readFields n [] cs).map fun (fields, rest) => (.object fields, rest) := by
  rw [readValue, show skipGaps ('\x7b' :: cs) = '\x7b' :: cs from skipGaps_token gap_nil rfl cs]
  simp only
  split
  · next hclose => exact absurd (congrArg List.head? hclose) h
  · rw [readFields_skipGaps]

/-! What an item or a field is followed by tells how the reader goes on. -/

theorem readItems_last (items : List Json) (h : readValue n cs = some (v, s ++ ']' :: rest))
    (hs : Gap s) : readItems (n + 1) items cs = some ((v :: items).reverse, rest) := by
  simp only [readItems, h, skipGaps_token hs (show isGap ']' = false from rfl)]

theorem readItems_more (items : List Json) (h : readValue n cs = some (v, s ++ ',' :: rest))
    (hs : Gap s) : readItems (n + 1) items cs = readItems n (v :: items) rest := by
  simp only [readItems, h, skipGaps_token hs (show isGap ',' = false from rfl)]

variable {cs' s' : List Char} {key : List Nat}

theorem readFields_last (fields : List (List Nat × Json)) (hopen : skipGaps cs = '"' :: cs')
    (hkey : readText cs' = some (key, s ++ ':' :: rest)) (hs : Gap s)
    (h : readValue n rest = some (v, s' ++ '\x7d' :: rest')) (hs' : Gap s') :
    readFields (n + 1) fields cs = some (((key, v) :: fields).reverse, rest') := by
  simp only [readFields, hopen, hkey, skipGaps_token hs (show isGap ':' = false from rfl), h,
    skipGaps_token hs' (show isGap '\x7d' = false from rfl)]

theorem readFields_more (fields : List (List Nat × Json)) (hopen : skipGaps cs = '"' :: cs')
    (hkey : readText cs' = some (key, s ++ ':' :: rest)) (hs : Gap s)
    (h : readValue n rest = some (v, s' ++ ',' :: rest')) (hs' : Gap s') :
    readFields (n + 1) fields cs = readFields n ((key, v) :: fields) rest' := by
  simp only [readFields, hopen, hkey, skipGaps_token hs (show isGap ':' = false from rfl), h,
    skipGaps_token hs' (show isGap ',' = false from rfl)]

mutual
/-- Two calls for each character of a value are enough to read it. -/
theorem reads_value {text : List Char} {v : Json} : IsValue text v →
    ∀ (n : Nat) {s rest : List Char}, Gap s → Stops rest → 2 * text.length ≤ n →
    readValue n (s ++ (text ++ rest)) = some (v, rest)
  | .null, n, s, rest, hs, _, hn => by
    obtain ⟨n, rfl⟩ : ∃ m, n = m + 1 := ⟨n - 1, by grind⟩
    rw [readValue_gap _ hs, readValue]
    rfl
  | .yes, n, s, rest, hs, _, hn => by
    obtain ⟨n, rfl⟩ : ∃ m, n = m + 1 := ⟨n - 1, by grind⟩
    rw [readValue_gap _ hs, readValue]
    rfl
  | .no, n, s, rest, hs, _, hn => by
    obtain ⟨n, rfl⟩ : ∃ m, n = m + 1 := ⟨n - 1, by grind⟩
    rw [readValue_gap _ hs, readValue]
    rfl
  | .number h, n, s, rest, hs, hrest, hn => by
    have hread := readNumber_append h hrest
    obtain ⟨d, ds, rfl, hd⟩ := h.exists_cons
    obtain ⟨n, rfl⟩ : ∃ m, n = m + 1 := ⟨n - 1, by grind⟩
    rw [List.cons_append] at hread ⊢
    rw [readValue_gap _ hs, readValue_number hd, hread]
    rfl
  | .text h, n, s, rest, hs, _, hn => by
    obtain ⟨body, rfl, hread⟩ := h.exists_cons
    obtain ⟨n, rfl⟩ : ∃ m, n = m + 1 := ⟨n - 1, by grind⟩
    rw [readValue_gap _ hs, List.cons_append, readValue,
      show skipGaps ('"' :: (body ++ rest)) = _ from skipGaps_token gap_nil rfl _]
    simp only [hread]
    rfl
  | .emptyArray hs', n, s, rest, hs, _, hn => by
    obtain ⟨n, rfl⟩ : ∃ m, n = m + 1 := ⟨n - 1, by grind⟩
    rw [readValue_gap _ hs, List.cons_append, List.append_assoc, List.singleton_append, readValue,
      show skipGaps ('[' :: _) = _ from skipGaps_token gap_nil rfl _]
    simp only [skipGaps_token hs' (show isGap ']' = false from rfl)]
  | .array hs' h, n, s, rest, hs, _, hn => by
    obtain ⟨n, rfl⟩ : ∃ m, n = m + 1 := ⟨n - 1, by grind⟩
    have hitems := reads_items h n rest [] hs' (by grind)
    rw [readValue_gap _ hs, List.cons_append, List.append_assoc,
      readValue_array n (by rw [skipGaps_append hs']; exact h.head?_ne rest), hitems]
    rfl
  | .emptyObject hs', n, s, rest, hs, _, hn => by
    obtain ⟨n, rfl⟩ : ∃ m, n = m + 1 := ⟨n - 1, by grind⟩
    rw [readValue_gap _ hs, List.cons_append, List.append_assoc, List.singleton_append, readValue,
      show skipGaps ('\x7b' :: _) = _ from skipGaps_token gap_nil rfl _]
    simp only [skipGaps_token hs' (show isGap '\x7d' = false from rfl)]
  | .object hs' h, n, s, rest, hs, _, hn => by
    obtain ⟨n, rfl⟩ : ∃ m, n = m + 1 := ⟨n - 1, by grind⟩
    have hfields := reads_fields h n rest [] hs' (by grind)
    rw [readValue_gap _ hs, List.cons_append, List.append_assoc,
      readValue_object n (by rw [skipGaps_append hs']; exact h.head?_ne rest), hfields]
    rfl

theorem reads_items {body : List Char} {new : List Json} : IsItems body new →
    ∀ (n : Nat) {s : List Char} (rest : List Char) (items : List Json), Gap s → 2 * body.length ≤ n →
    readItems n items (s ++ (body ++ rest)) = some (items.reverse ++ new, rest)
  | .last h hs', n, s, rest, items, hs, hn => by
    obtain ⟨n, rfl⟩ : ∃ m, n = m + 1 := ⟨n - 1, by grind⟩
    have hvalue := reads_value h n hs ((stops_cons rest (c := ']') rfl).gap hs') (by grind)
    simpa using readItems_last items hvalue hs'
  | @IsItems.more _ _ s₂ more _ _ h hs₁ hs₂ hmore, n, s, rest, items, hs, hn => by
    obtain ⟨n, rfl⟩ : ∃ m, n = m + 1 := ⟨n - 1, by grind⟩
    have hstops := (stops_cons (s₂ ++ (more ++ rest)) (c := ',') rfl).gap hs₁
    have hvalue := reads_value h n hs hstops (by grind)
    have hitems := fun v => reads_items hmore n rest (v :: items) hs₂ (by grind)
    simpa [hitems] using readItems_more items hvalue hs₁

theorem reads_fields {body : List Char} {new : List (List Nat × Json)} : IsFields body new →
    ∀ (n : Nat) {s : List Char} (rest : List Char) (fields : List (List Nat × Json)), Gap s →
    2 * body.length ≤ n →
    readFields n fields (s ++ (body ++ rest)) = some (fields.reverse ++ new, rest)
  | .last (.mk hkey hs₁ hs₂ h) hs₃, n, s, rest, fields, hs, hn => by
    obtain ⟨n, rfl⟩ : ∃ m, n = m + 1 := ⟨n - 1, by grind⟩
    obtain ⟨k, rfl, hread⟩ := hkey.exists_cons
    have hstops := (stops_cons rest (c := '\x7d') rfl).gap hs₃
    have hvalue := reads_value h n hs₂ hstops (by grind)
    simpa using readFields_last fields (skipGaps_token hs rfl _) (hread _) hs₁ hvalue hs₃
  | @IsFields.more _ _ s₄ more _ _ _ (.mk hkey hs₁ hs₂ h) hs₃ hs₄ hmore, n, s, rest, fields, hs,
      hn => by
    obtain ⟨n, rfl⟩ : ∃ m, n = m + 1 := ⟨n - 1, by grind⟩
    obtain ⟨k, rfl, hread⟩ := hkey.exists_cons
    have hstops := (stops_cons (s₄ ++ (more ++ rest)) (c := ',') rfl).gap hs₃
    have hvalue := reads_value h n hs₂ hstops (by grind)
    have hfields := fun field => reads_fields hmore n rest (field :: fields) hs₄ (by grind)
    simpa [hfields] using readFields_more fields (skipGaps_token hs rfl _) (hread _) hs₁ hvalue hs₃
end

/-- The value of a document is read. -/
theorem parse?_of_isDocument {text : List Char} (h : IsDocument text v) : parse? text = some v := by
  obtain ⟨s, body, s', hs, hs', hbody, rfl⟩ := h
  have hstops : Stops s' := by simpa using stops_nil.gap hs'
  have hread := reads_value hbody (fuelFor (s ++ (body ++ s'))) hs hstops (by grind [fuelFor])
  have hend : skipGaps s' = [] := by simpa [skipGaps] using skipGaps_append hs' []
  rw [parse?, hread]
  simp [hend]

end Trampoline.Json
