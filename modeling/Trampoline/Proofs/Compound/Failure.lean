import Mathlib.Logic.Relation
import Trampoline.Proofs.Compound.Grammar

/-! Where reading a compound fails.

At each place in a text a compound goes on with one of a few characters: with a key behind a
comma, with a colon behind a key, with a comma or the closing brace behind a field. `Step` says
how the reader gets from one such place to the next, over a token or over a whole value, and
`Reaches` what places it gets to. It fails where it is `Stuck`: at the first character that is
not one of those, or in a quoted text without an end. No place has a use for a tab (`admits_tab`),
and only behind the opening bracket the closing one may come in place of an item (`admits_close`).

That the reader fails in these places is carried back along the steps (`Step.fails`); that it
fails nowhere else is an induction on the fuel, which never runs out (`locates`). -/
namespace Trampoline.Compound
open Value (isBareChar)

variable {s cs rest text : List Char} {n : Nat} {f : Failure}

/-! ### Tokens -/

/-- A quoted text without an end. -/
def Unclosed (quote : Char) (cs : List Char) : Prop :=
  ∀ written text rest, cs = written ++ rest → ¬ QuotedBody quote written text

theorem readQuoted_error {quote : Char} {taken : List Char} (h : readQuoted quote taken cs = .error f) :
    f = ⟨.unterminated, []⟩ := by
  fun_induction readQuoted quote taken cs with
  | case1 => exact (Except.error.inj h).symm
  | case2 => exact (Except.error.inj h).symm
  | case3 _ _ _ ih => exact ih h
  | case4 => cases h
  | case5 _ _ _ _ _ _ ih => exact ih h

theorem readQuoted_error_iff {quote : Char} (hquote : quote ≠ '\\') :
    readQuoted quote [] cs = .error f ↔ Unclosed quote cs ∧ f = ⟨.unterminated, []⟩ := by
  constructor
  · intro h
    refine ⟨fun written text rest heq hbody => ?_, readQuoted_error h⟩
    rw [heq, readQuoted_complete hquote hbody] at h
    cases h
  · rintro ⟨hopen, rfl⟩
    cases hread : readQuoted quote [] cs with
    | error f => rw [readQuoted_error hread]
    | ok result =>
      obtain ⟨taken, rest⟩ := result
      obtain ⟨written, text, heq, hbody, -⟩ := readQuoted_sound hread
      exact absurd hbody (hopen written text rest heq)

theorem readToken_error_iff {α : Type} {missing : Cause} {quoted bare : List Char → α} :
    readToken missing quoted bare cs = .error f ↔
      (∀ c ∈ cs.head?, (isQuote c || isBareChar c) = false) ∧ f = ⟨missing, cs⟩ ∨
      ∃ quote body, cs = quote :: body ∧ isQuote quote = true ∧ Unclosed quote body ∧
        f = ⟨.unterminated, []⟩ := by
  cases cs with
  | nil =>
    refine ⟨fun h => .inl ⟨by simp, (Except.error.inj h).symm⟩, fun h => ?_⟩
    obtain ⟨-, rfl⟩ | ⟨quote, body, heq, -⟩ := h
    · rfl
    · cases heq
  | cons c body =>
    by_cases hc : isQuote c = true
    · have hne : c ≠ '\\' := by
        rintro rfl
        exact absurd hc (by decide)
      have hread : readToken missing quoted bare (c :: body) = .error f ↔
          readQuoted c [] body = .error f := by
        rw [readToken, if_pos hc]
        cases readQuoted c [] body <;> simp
      rw [hread, readQuoted_error_iff hne]
      constructor
      · rintro ⟨hopen, hf⟩
        exact .inr ⟨c, body, rfl, hc, hopen, hf⟩
      · rintro (⟨htoken, -⟩ | ⟨quote, body, heq, -, hopen, hf⟩)
        · exact absurd (htoken c rfl) (by simp [hc])
        · cases heq
          exact ⟨hopen, hf⟩
    · by_cases hbare : isBareChar c = true
      · simp [readToken, hc, hbare]
      · have hread : readToken missing quoted bare (c :: body) = .error ⟨missing, c :: body⟩ := by
          simp [readToken, hc, hbare]
        rw [hread, Except.error.injEq]
        constructor
        · rintro rfl
          exact .inl ⟨by simp [hc, hbare], rfl⟩
        · rintro (⟨-, hf⟩ | ⟨quote, body, heq, hquote, -⟩)
          · exact hf.symm
          · cases heq
            exact absurd hquote hc

/-! ### Places -/

/-- What can come next in a text: `first` is the place right behind an opening bracket. -/
inductive Awaited where
  | compound
  | key (first : Bool)
  | colon
  | value
  | item (first : Bool)
  | fieldEnd
  | itemEnd
  deriving DecidableEq

/-- What a value begins with. -/
def opensValue (c : Char) : Bool := isQuote c || isBareChar c || c == '\x7b' || c == '['

/-- The characters, other than the space, that a compound goes on with. -/
def Awaited.admits : Awaited → Char → Bool
  | compound, c => c == '\x7b'
  | key first, c => isQuote c || isBareChar c || first && c == '\x7d'
  | colon, c => c == ':'
  | value, c => opensValue c
  | item first, c => opensValue c || first && c == ']'
  | fieldEnd, c => c == ',' || c == '\x7d'
  | itemEnd, c => c == ',' || c == ']'

def Awaited.cause : Awaited → Cause
  | compound => .compound
  | key _ => .key
  | colon => .colon
  | value => .value
  | item _ => .value
  | fieldEnd => .separator '\x7d'
  | itemEnd => .separator ']'

/-- A tab is welcome nowhere. -/
theorem admits_tab (p : Awaited) : p.admits '\t' = false := by
  cases p with
  | key first => cases first <;> rfl
  | item first => cases first <;> rfl
  | _ => rfl

/-- Behind a comma no bracket closes. -/
theorem admits_close :
    (Awaited.key false).admits '\x7d' = false ∧ (Awaited.item false).admits ']' = false :=
  ⟨rfl, rfl⟩

/-- The places where a value comes next. -/
inductive Awaited.TakesValue : Awaited → Prop where
  | value : TakesValue value
  | item (first : Bool) : TakesValue (item first)

/-- From one place in a text to the next: over a token, over a whole value, or into a value. -/
inductive Step : Awaited × List Char → Awaited × List Char → Prop where
  | opened {s cs : List Char} (hs : Spaces s) : Step (.compound, s ++ '\x7b' :: cs) (.key true, cs)
  | key {first : Bool} {s k cs : List Char} {key : String} (hs : Spaces s) (h : IsKey k key cs) :
      Step (.key first, s ++ (k ++ cs)) (.colon, cs)
  | colon {s cs : List Char} (hs : Spaces s) : Step (.colon, s ++ ':' :: cs) (.value, cs)
  | value {s text cs : List Char} {v : Value} (hs : Spaces s) (h : IsValue text v cs) :
      Step (.value, s ++ (text ++ cs)) (.fieldEnd, cs)
  | field {s cs : List Char} (hs : Spaces s) : Step (.fieldEnd, s ++ ',' :: cs) (.key false, cs)
  | item {first : Bool} {s text cs : List Char} {v : Value} (hs : Spaces s) (h : IsValue text v cs) :
      Step (.item first, s ++ (text ++ cs)) (.itemEnd, cs)
  | next {s cs : List Char} (hs : Spaces s) : Step (.itemEnd, s ++ ',' :: cs) (.item false, cs)
  | intoBraces {p : Awaited} {s cs : List Char} (hp : p.TakesValue) (hs : Spaces s) :
      Step (p, s ++ '\x7b' :: cs) (.key true, cs)
  | intoBrackets {p : Awaited} {s cs : List Char} (hp : p.TakesValue) (hs : Spaces s) :
      Step (p, s ++ '[' :: cs) (.item true, cs)

/-- The reader of a text gets to a place in it, with `rest` unread. -/
def Reaches (cs : List Char) (p : Awaited) (rest : List Char) : Prop :=
  Relation.ReflTransGen Step (.compound, cs) (p, rest)

/-- Nothing that is awaited comes next, or a quoted text that has no end. -/
inductive Stuck : Awaited → List Char → Failure → Prop where
  | unexpected {p : Awaited} {cs : List Char} (h : ∀ c ∈ (skipSpaces cs).head?, p.admits c = false) :
      Stuck p cs ⟨p.cause, skipSpaces cs⟩
  | unclosed {p : Awaited} {quote : Char} {cs body : List Char} (hquote : isQuote quote = true)
      (hp : p.admits quote = true) (hcs : skipSpaces cs = quote :: body) (h : Unclosed quote body) :
      Stuck p cs ⟨.unterminated, []⟩

/-! ### The reader fails where it is stuck -/

/-- The reader fails at a place, whatever it has read so far in the call that is under way. -/
def FailsAt (f : Failure) : Awaited × List Char → Prop
  -- behind a key or a value, the call is the one that has read it
  | (.compound, cs) => read cs = .error f
  | (.key true, cs) => ∀ n, 3 * cs.length + 2 ≤ n → readBraces n cs = .error f
  | (.key false, cs) => ∀ n record, 3 * cs.length + 1 ≤ n → readFields n record cs = .error f
  | (.colon, cs) => ∀ n record before key, 3 * cs.length + 1 ≤ n →
    readKey (skipSpaces before) = .ok (key, cs) → readFields (n + 1) record before = .error f
  | (.value, cs) => ∀ n record before key s, 3 * cs.length + 1 ≤ n → Spaces s →
    readKey (skipSpaces before) = .ok (key, s ++ ':' :: cs) →
    readFields (n + 1) record before = .error f
  | (.item true, cs) => ∀ n, 3 * cs.length + 3 ≤ n → readValue n ('[' :: cs) = .error f
  | (.item false, cs) => ∀ n before, 3 * cs.length + 2 ≤ n → readItems n before cs = .error f
  | (.fieldEnd, cs) => ∀ n record before key s inner v, 3 * cs.length + 1 ≤ n → Spaces s →
    readKey (skipSpaces before) = .ok (key, s ++ ':' :: inner) → readValue n inner = .ok (v, cs) →
    readFields (n + 1) record before = .error f
  | (.itemEnd, cs) => ∀ n items before v, 3 * cs.length + 1 ≤ n →
    readValue n before = .ok (v, cs) → readItems (n + 1) items before = .error f

/-- A value that cannot be read fails at each place that takes one. -/
theorem failsAt_value {p : Awaited} (hp : p.TakesValue)
    (hopen : p = .item true → (skipSpaces cs).head? ≠ some ']')
    (h : ∀ n, 3 * cs.length + 1 ≤ n → readValue n cs = .error f) : FailsAt f (p, cs) := by
  have hitems : ∀ n before, 3 * cs.length + 2 ≤ n → readItems n before cs = .error f := by
    intro n before hn
    obtain ⟨n, rfl⟩ : ∃ m, n = m + 1 := ⟨n - 1, by omega⟩
    rw [readItems, h n (by omega)]
  cases hp with
  | value =>
    intro n record before key s hn hs hkey
    simp only [readFields, hkey, skipSpaces_token hs (show ':' ≠ ' ' by decide), h n hn]
  | item first =>
    cases first with
    | false => exact hitems
    | true =>
      intro n hn
      obtain ⟨n, rfl⟩ : ∃ m, n = m + 1 := ⟨n - 1, by omega⟩
      rw [readValue_nonempty n (hopen rfl), hitems n [] (by omega)]

/-- A failure at the next place is a failure at this one. -/
theorem Step.fails {a b : Awaited × List Char} (h : Step a b) (hb : FailsAt f b) : FailsAt f a := by
  cases h with
  | @opened s cs hs =>
    rw [FailsAt, read, skipSpaces_token hs (by decide)]
    exact hb _ (by simp [fuelFor])
  | @key first s k cs key hs h =>
    obtain ⟨c, w, rfl, hc⟩ := h.exists_cons
    have hfields : ∀ n record, 3 * (s ++ (c :: w ++ cs)).length + 1 ≤ n →
        readFields n record (s ++ (c :: w ++ cs)) = .error f := by
      intro n record hn
      obtain ⟨n, rfl⟩ : ∃ m, n = m + 1 := ⟨n - 1, by omega⟩
      exact hb n record _ key (by grind) (h.read hs)
    cases first with
    | false => exact hfields
    | true =>
      intro n hn
      obtain ⟨n, rfl⟩ : ∃ m, n = m + 2 := ⟨n - 2, by omega⟩
      -- the closing brace is looked for first, and a key does not begin with it
      rw [readBraces_nonempty n, hfields (n + 1) [] (by omega)]
      rw [h.skipSpaces hs]
      exact fun heq => ne_of_opens hc rfl (Option.some.inj heq)
  | colon hs => exact fun n record before key hn hkey => hb n record before key _ (by grind) hs hkey
  | value hs h =>
    -- the value itself is read, so the failure is behind it
    intro n record before key s' hn hs' hkey
    exact hb n record before key s' _ _ (by grind) hs' hkey (reads_value h n hs (by grind))
  | field hs =>
    intro n record before key s inner v hn hs' hkey hvalue
    rw [readFields_more record hkey hs' hvalue hs]
    exact hb n _ (by grind)
  | @item first s text cs v hs h =>
    have hitems : ∀ n before, 3 * (s ++ (text ++ cs)).length + 2 ≤ n →
        readItems n before (s ++ (text ++ cs)) = .error f := by
      intro n before hn
      obtain ⟨n, rfl⟩ : ∃ m, n = m + 1 := ⟨n - 1, by omega⟩
      exact hb n before _ v (by grind) (reads_value h n hs (by grind))
    cases first with
    | false => exact hitems
    | true =>
      intro n hn
      obtain ⟨n, rfl⟩ : ∃ m, n = m + 1 := ⟨n - 1, by omega⟩
      rw [readValue_nonempty n (by rw [skipSpaces_append hs]; exact h.head?_ne cs),
        hitems n [] (by omega)]
  | next hs =>
    intro n items before v hn hvalue
    rw [readItems_more items hvalue hs]
    exact hb n _ (by grind)
  | intoBraces hp hs =>
    -- a failure inside a value is one of the value
    refine failsAt_value hp (fun _ => by simp [skipSpaces_token hs]) fun n hn => ?_
    obtain ⟨n, rfl⟩ : ∃ m, n = m + 1 := ⟨n - 1, by omega⟩
    rw [readValue_spaces n hs, readValue, skipSpaces_cons _ (by decide)]
    simp only [hb n (by grind)]
  | intoBrackets hp hs =>
    refine failsAt_value hp (fun _ => by simp [skipSpaces_token hs]) fun n hn => ?_
    obtain ⟨n, rfl⟩ : ∃ m, n = m + 1 := ⟨n - 1, by omega⟩
    rw [readValue_spaces n hs]
    exact hb (n + 1) (by grind)

/-- Where only other characters are awaited, there is nothing unclosed. -/
theorem Stuck.eq_unexpected {p : Awaited} (h : Stuck p cs f)
    (hp : p.admits '"' = false ∧ p.admits '\'' = false) : f = ⟨p.cause, skipSpaces cs⟩ := by
  cases h with
  | unexpected _ => rfl
  | unclosed hquote hadmits _ _ =>
    rcases isQuote_iff.mp hquote with rfl | rfl
    · exact Bool.noConfusion (hadmits.symm.trans hp.1)
    · exact Bool.noConfusion (hadmits.symm.trans hp.2)

theorem Stuck.head?_ne {p : Awaited} (h : Stuck p cs f) {d : Char} (hd : p.admits d = true)
    (hquote : isQuote d = false) : (skipSpaces cs).head? ≠ some d := by
  intro heq
  cases h with
  | unexpected h => exact Bool.noConfusion ((h d heq).symm.trans hd)
  | unclosed hquote' _ hcs _ =>
    rw [hcs] at heq
    cases heq
    exact Bool.noConfusion (hquote'.symm.trans hquote)

/-- A place where a token comes next. -/
theorem Stuck.readToken {α : Type} {missing : Cause} {quoted bare : List Char → α} {p : Awaited}
    (h : Stuck p cs f) (hcause : p.cause = missing)
    (hp : ∀ c, (isQuote c || isBareChar c) = true → p.admits c = true) :
    readToken missing quoted bare (skipSpaces cs) = .error f := by
  rw [readToken_error_iff, ← hcause]
  cases h with
  | unexpected h =>
    refine .inl ⟨fun c hc => Bool.eq_false_iff.mpr fun htoken => ?_, rfl⟩
    exact Bool.noConfusion ((h c hc).symm.trans (hp c htoken))
  | unclosed hquote _ hcs h => exact .inr ⟨_, _, hcs, hquote, h, rfl⟩

theorem Stuck.readValue {p : Awaited} (h : Stuck p cs f) (hp : p.TakesValue) (n : Nat) :
    readValue (n + 1) cs = .error f := by
  have hadmits (c : Char) (hc : opensValue c = true) : p.admits c = true := by
    cases hp <;> simp [Awaited.admits, hc]
  have hcause : p.cause = .value := by cases hp <;> rfl
  rw [Compound.readValue]
  split
  · next heq => exact absurd (congrArg List.head? heq) (h.head?_ne (hadmits _ rfl) rfl)
  · next heq => exact absurd (congrArg List.head? heq) (h.head?_ne (hadmits _ rfl) rfl)
  · exact h.readToken hcause fun c hc => hadmits c (by simp [opensValue, hc])

theorem failsAt_stuck {p : Awaited} (h : Stuck p cs f) : FailsAt f (p, cs) := by
  cases p with
  | compound =>
    rw [h.eq_unexpected ⟨rfl, rfl⟩, FailsAt, read]
    split
    · next heq => exact absurd (congrArg List.head? heq) (h.head?_ne rfl rfl)
    · rfl
  | key first =>
    have hcause : (Awaited.key first).cause = .key := rfl
    have hfields (n : Nat) (record : Record) : readFields (n + 1) record cs = .error f := by
      rw [readFields, readKey, h.readToken hcause fun c hc => by simp [Awaited.admits, hc]]
    cases first with
    | false =>
      intro n record hn
      obtain ⟨n, rfl⟩ : ∃ m, n = m + 1 := ⟨n - 1, by omega⟩
      exact hfields n record
    | true =>
      intro n hn
      obtain ⟨n, rfl⟩ : ∃ m, n = m + 2 := ⟨n - 2, by omega⟩
      rw [readBraces_nonempty n (h.head?_ne rfl rfl)]
      exact hfields n []
  | colon =>
    intro n record before key hn hkey
    rw [h.eq_unexpected ⟨rfl, rfl⟩, readFields, hkey]
    dsimp only
    split
    · next heq => exact absurd (congrArg List.head? heq) (h.head?_ne rfl rfl)
    · rfl
  | value =>
    refine failsAt_value .value (fun heq => Awaited.noConfusion heq) fun n hn => ?_
    obtain ⟨n, rfl⟩ : ∃ m, n = m + 1 := ⟨n - 1, by omega⟩
    exact h.readValue .value n
  | item first =>
    refine failsAt_value (.item first) (fun heq => ?_) fun n hn => ?_
    · cases heq
      exact h.head?_ne rfl rfl
    · obtain ⟨n, rfl⟩ : ∃ m, n = m + 1 := ⟨n - 1, by omega⟩
      exact h.readValue (.item first) n
  | fieldEnd =>
    intro n record before key s inner v hn hs hkey hvalue
    rw [h.eq_unexpected ⟨rfl, rfl⟩]
    simp only [readFields, hkey, skipSpaces_token hs (show ':' ≠ ' ' by decide), hvalue]
    split
    · next heq => exact absurd (congrArg List.head? heq) (h.head?_ne rfl rfl)
    · next heq => exact absurd (congrArg List.head? heq) (h.head?_ne rfl rfl)
    · rfl
  | itemEnd =>
    intro n items before v hn hvalue
    rw [h.eq_unexpected ⟨rfl, rfl⟩, readItems, hvalue]
    dsimp only
    split
    · next heq => exact absurd (congrArg List.head? heq) (h.head?_ne rfl rfl)
    · next heq => exact absurd (congrArg List.head? heq) (h.head?_ne rfl rfl)
    · rfl

/-- The reader fails at every place on its way to one where it fails. -/
theorem fails_of_steps {a b : Awaited × List Char} (h : Relation.ReflTransGen Step a b)
    (hb : FailsAt f b) : FailsAt f a := by
  induction h using Relation.ReflTransGen.head_induction_on with
  | refl => exact hb
  | head hstep _ ih => exact hstep.fails ih

/-! ### The reader fails nowhere else -/

/-- A failure where the reader is stuck, at a place that is reached from here. -/
def Located (f : Failure) (here : Awaited × List Char) : Prop :=
  ∃ p rest, Relation.ReflTransGen Step here (p, rest) ∧ Stuck p rest f

theorem Stuck.located {p : Awaited} (h : Stuck p cs f) : Located f (p, cs) := ⟨p, cs, .refl, h⟩

theorem Step.located {a b : Awaited × List Char} (h : Step a b) (hb : Located f b) : Located f a := by
  obtain ⟨p, rest, hsteps, hstuck⟩ := hb
  exact ⟨p, rest, .head h hsteps, hstuck⟩

theorem ne_of_head? {c d : Char} (hc : c ∈ cs.head?)
    (hd : ∀ tail, cs = d :: tail → False) : c ≠ d := by
  rintro rfl
  obtain ⟨tail, rfl⟩ := List.head?_eq_some_iff.mp hc
  exact hd tail rfl

theorem stuck_of_readToken {α : Type} {missing : Cause} {quoted bare : List Char → α} {p : Awaited}
    (h : readToken missing quoted bare (skipSpaces cs) = .error f) (hcause : p.cause = missing)
    (hquotes : ∀ c, isQuote c = true → p.admits c = true)
    (hother : ∀ c ∈ (skipSpaces cs).head?, (isQuote c || isBareChar c) = false → p.admits c = false) :
    Stuck p cs f := by
  rcases readToken_error_iff.mp h with ⟨htoken, rfl⟩ | ⟨quote, body, hcs, hquote, hopen, rfl⟩
  · exact hcause ▸ .unexpected fun c hc => hother c hc (htoken c hc)
  · exact .unclosed hquote (hquotes quote hquote) hcs hopen

/-- With enough fuel, a reader's failures are where it is stuck. The closing bracket right behind the
opening one is not its business. -/
structure Locates (n : Nat) : Prop where
  value {p : Awaited} {cs : List Char} {f : Failure} (hp : p.TakesValue)
    (hopen : p = .item true → (skipSpaces cs).head? ≠ some ']') (hn : 3 * cs.length + 1 ≤ n)
    (h : readValue n cs = .error f) : Located f (p, cs)
  items {first : Bool} {cs : List Char} {before : List Value} {f : Failure}
    (hopen : first = true → (skipSpaces cs).head? ≠ some ']') (hn : 3 * cs.length + 2 ≤ n)
    (h : readItems n before cs = .error f) : Located f (.item first, cs)
  braces {cs : List Char} {f : Failure} (hn : 3 * cs.length + 2 ≤ n)
    (h : readBraces n cs = .error f) : Located f (.key true, cs)
  fields {first : Bool} {cs : List Char} {record : Record} {f : Failure}
    (hopen : first = true → (skipSpaces cs).head? ≠ some '\x7d') (hn : 3 * cs.length + 1 ≤ n)
    (h : readFields n record cs = .error f) : Located f (.key first, cs)

theorem Locates.value_succ (ih : Locates n) {p : Awaited} (hp : p.TakesValue)
    (hopen : p = .item true → (skipSpaces cs).head? ≠ some ']') (hn : 3 * cs.length + 1 ≤ n + 1)
    (h : readValue (n + 1) cs = .error f) : Located f (p, cs) := by
  obtain ⟨s, hs, heq⟩ := exists_spaces cs
  rw [readValue] at h
  split at h
  · next body hbrace =>
    rw [hbrace] at heq
    split at h
    · next hbraces =>
      cases h
      rw [heq] at hn ⊢
      exact (Step.intoBraces hp hs).located (ih.braces (by grind) hbraces)
    · cases h
  · next body hbracket =>
    rw [hbracket] at heq
    split at h
    · cases h
    · next hitem =>
      split at h
      · next hitems =>
        cases h
        rw [heq] at hn ⊢
        refine (Step.intoBrackets hp hs).located (ih.items (fun _ hclose => ?_) (by grind) hitems)
        exact ne_of_head? hclose hitem rfl
      · cases h
  · next hbrace hbracket =>
    have hcause : p.cause = .value := by cases hp <;> rfl
    refine (stuck_of_readToken h hcause (fun c hc => ?_) fun c hc htoken => ?_).located
    · cases hp <;> simp [Awaited.admits, opensValue, hc]
    · have hvalue : opensValue c = false := by
        simp [opensValue, htoken, ne_of_head? hc hbrace, ne_of_head? hc hbracket]
      cases hp with
      | value => exact hvalue
      | item first =>
        cases first with
        | false => simp [Awaited.admits, hvalue]
        | true =>
          have hclose : c ≠ ']' := fun heq => hopen rfl (heq ▸ hc)
          simp [Awaited.admits, hvalue, hclose]

theorem Locates.items_succ (ih : Locates n) {first : Bool} {before : List Value}
    (hopen : first = true → (skipSpaces cs).head? ≠ some ']') (hn : 3 * cs.length + 2 ≤ n + 1)
    (h : readItems (n + 1) before cs = .error f) : Located f (.item first, cs) := by
  rw [readItems] at h
  split at h
  · next hvalue =>
    cases h
    refine ih.value (.item first) (fun heq => hopen ?_) (by omega) hvalue
    cases heq
    rfl
  · next v after hvalue =>
    obtain ⟨s, text, hs, rfl, hderives⟩ := (derives n).value hvalue
    obtain ⟨s', hs', heq⟩ := exists_spaces after
    refine (Step.item hs hderives).located ?_
    split at h
    · cases h
    · next more hcomma =>
      rw [hcomma] at heq
      subst heq
      exact (Step.next hs').located (ih.items (fun heq => absurd heq (by decide)) (by grind) h)
    · next hclose hcomma =>
      cases h
      refine Stuck.located (.unexpected (p := .itemEnd) fun c hc => ?_)
      simp [Awaited.admits, ne_of_head? hc hclose, ne_of_head? hc hcomma]

theorem Locates.braces_succ (ih : Locates n) (hn : 3 * cs.length + 2 ≤ n + 1)
    (h : readBraces (n + 1) cs = .error f) : Located f (.key true, cs) := by
  obtain ⟨n, rfl⟩ : ∃ m, n = m + 1 := ⟨n - 1, by omega⟩
  by_cases hclose : (skipSpaces cs).head? = some '\x7d'
  · obtain ⟨tail, heq⟩ := List.head?_eq_some_iff.mp hclose
    rw [readBraces, heq] at h
    cases h
  · rw [readBraces_nonempty n hclose] at h
    exact ih.fields (fun _ => hclose) (by omega) h

theorem Locates.fields_succ (ih : Locates n) {first : Bool} {record : Record}
    (hopen : first = true → (skipSpaces cs).head? ≠ some '\x7d') (hn : 3 * cs.length + 1 ≤ n + 1)
    (h : readFields (n + 1) record cs = .error f) : Located f (.key first, cs) := by
  obtain ⟨s, hs, heq⟩ := exists_spaces cs
  rw [readFields] at h
  split at h
  · next hkey =>
    cases h
    -- no key comes next
    refine (stuck_of_readToken hkey rfl (fun c hc => ?_) fun c hc htoken => ?_).located
    · simp [Awaited.admits, hc]
    · cases first with
      | false => simp [Awaited.admits, htoken]
      | true =>
        have hclose : c ≠ '\x7d' := fun heq => hopen rfl (heq ▸ hc)
        simp [Awaited.admits, htoken, hclose]
  · next key behind hread =>
    obtain ⟨k, hk, hkey⟩ := readToken_ok_iff.mp hread
    rw [hk] at heq
    subst heq
    obtain ⟨s', hs', heq⟩ := exists_spaces behind
    refine (Step.key hs hkey).located ?_
    split at h
    · next inner hcolon =>
      rw [hcolon] at heq
      subst heq
      refine (Step.colon hs').located ?_
      split at h
      · next hvalue =>
        cases h
        -- the failure is in the value
        exact ih.value .value (fun heq => Awaited.noConfusion heq) (by grind) hvalue
      · next v after hvalue =>
        obtain ⟨s'', text, hs'', rfl, hderives⟩ := (derives n).value hvalue
        obtain ⟨s₃, hs₃, heq⟩ := exists_spaces after
        refine (Step.value hs'' hderives).located ?_
        split at h
        · cases h
        · next more hcomma =>
          rw [hcomma] at heq
          subst heq
          exact (Step.field hs₃).located (ih.fields (fun heq => absurd heq (by decide)) (by grind) h)
        · next hclose hcomma =>
          cases h
          refine Stuck.located (.unexpected (p := .fieldEnd) fun c hc => ?_)
          simp [Awaited.admits, ne_of_head? hc hclose, ne_of_head? hc hcomma]
    · next hcolon =>
      cases h
      refine Stuck.located (.unexpected (p := .colon) fun c hc => ?_)
      simp [Awaited.admits, ne_of_head? hc hcolon]

theorem locates (n : Nat) : Locates n := by
  induction n with
  | zero => exact ⟨fun _ _ hn => absurd hn (by omega), fun _ hn => absurd hn (by omega),
      fun hn => absurd hn (by omega), fun _ hn => absurd hn (by omega)⟩
  | succ n ih => exact ⟨ih.value_succ, ih.items_succ, ih.braces_succ, ih.fields_succ⟩

/-- Reading fails where it is stuck, and nowhere else. -/
theorem read_error_iff : read cs = .error f ↔ ∃ p rest, Reaches cs p rest ∧ Stuck p rest f := by
  constructor
  · intro h
    obtain ⟨s, hs, heq⟩ := exists_spaces cs
    unfold read at h
    split at h
    · next body hbrace =>
      rw [hbrace] at heq
      subst heq
      exact (Step.opened hs).located ((locates _).braces (by simp [fuelFor]) h)
    · next hbrace =>
      cases h
      refine Stuck.located (.unexpected (p := .compound) fun c hc => ?_)
      simp [Awaited.admits, ne_of_head? hc hbrace]
  · rintro ⟨p, rest, hreach, hstuck⟩
    exact fails_of_steps hreach (failsAt_stuck hstuck)

/-! ### Where a failure points -/

theorem Step.suffix {a b : Awaited × List Char} (h : Step a b) : b.2 <:+ a.2 := by
  have hchar (s : List Char) (c : Char) (cs : List Char) : cs <:+ s ++ c :: cs :=
    (List.suffix_cons c cs).trans (List.suffix_append s _)
  have htext (s text cs : List Char) : cs <:+ s ++ (text ++ cs) :=
    (List.suffix_append text cs).trans (List.suffix_append s _)
  cases h with
  | opened => exact hchar ..
  | key => exact htext ..
  | colon => exact hchar ..
  | value => exact htext ..
  | field => exact hchar ..
  | item => exact htext ..
  | next => exact hchar ..
  | intoBraces => exact hchar ..
  | intoBrackets => exact hchar ..

theorem Stuck.suffix {p : Awaited} (h : Stuck p cs f) : f.rest <:+ cs := by
  cases h with
  | unexpected _ => exact List.dropWhile_suffix _
  | unclosed _ _ _ _ => exact List.nil_suffix

/-- A failure is about an end of the text. -/
theorem read_error_suffix (h : read cs = .error f) : f.rest <:+ cs := by
  obtain ⟨p, rest, hreach, hstuck⟩ := read_error_iff.mp h
  have hrest {a b : Awaited × List Char} (hsteps : Relation.ReflTransGen Step a b) : b.2 <:+ a.2 := by
    induction hsteps with
    | refl => exact List.suffix_rfl
    | tail _ hstep ih => exact hstep.suffix.trans ih
  exact hstuck.suffix.trans (hrest hreach)

end Trampoline.Compound
