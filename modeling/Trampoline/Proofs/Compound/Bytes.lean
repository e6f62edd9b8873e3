import Trampoline.Proofs.Compound.Grammar
import Trampoline.Proofs.Cursor.Bytes

/-! Compounds at a byte cursor.

Here the reader of compounds is written out for a byte cursor: it asks for one character after the
other, moves by their widths, slices bare words out of the text and cuts the letter off a word at
a byte position. It counts its calls, and has no result when there are none left.

They last for every text, and it does what the reader of characters does (`paced`): where that one
leaves a rest, it stands in front of it. -/
namespace Trampoline

namespace ByteReader
open Compound (Cause isQuote isDecimal isInteger suffixed)

variable {α : Type}

/-- What was missing, reported here. -/
def fail (cause : Cause) : ByteReader α := do
  let c ← get
  throw ((CommandError.invalid cause.message).atPlace c.source c.position)

/-- A quoted text after its opening quote; `taken` is newest first. -/
def quotedFrom (quote : Char) : Nat → List Char → ByteReader (List Char)
  | 0, _ => stuck
  | n + 1, taken => do
    match ← advance with
    | none => fail .unterminated
    | some '\\' =>
      match ← advance with
      | none => fail .unterminated
      | some ch => quotedFrom quote n (ch :: taken)
    | some ch =>
      if ch == quote then return taken.reverse else quotedFrom quote n (ch :: taken)

def quoted : ByteReader (List Char) := do
  match ← advance with
  | none => fail .value
  | some quote => quotedFrom quote ((← rest).length + 1) []

/-- The characters of a bare word, passed over one by one. -/
def bare : ByteReader (List Char) := do
  let rest ← rest
  let bytes := Text.width (rest.takeWhile Value.isBareChar)
  let w ← slice rest 0 bytes
  w.forM fun _ => discard advance
  slice rest 0 bytes

/-- The letter that ends a word, in lower case, and the slice before it. -/
def splitSuffix (w : List Char) : ByteReader (Option (List Char × Char)) := do
  match w.getLast? with
  | none => return none
  | some ch =>
    let start := Text.width w.dropLast
    if ch.isAlpha && 0 < start then
      let body ← slice w 0 start
      return some (body, ch.toLower)
    else return none

def number? (w : List Char) : ByteReader (Option Value) := do
  match ← splitSuffix w with
  | some (body, suffix) => return if isDecimal body then suffixed body suffix else none
  | none =>
    return if isInteger w then (Numeral.readInt32 w).map .int
      else if isDecimal w then (Decimal.readDouble w).map .double
      else none

def classify (w : List Char) : ByteReader Value := do
  if w == "true".toList then return .byte 1
  else if w == "false".toList then return .byte 0
  else return (← number? w).getD (.text (String.ofList w))

/-- A quoted text or a bare word. -/
def token (missing : Cause) (text : List Char → α) (meaning : List Char → ByteReader α) :
    ByteReader α := do
  if (← peek?).any isQuote then return text (← quoted)
  else
    let w ← bare
    if w.isEmpty then fail missing else meaning w

def key : ByteReader String := token .key String.ofList fun w => return String.ofList w

def scalar : ByteReader Value := token .value (fun t => .text (String.ofList t)) classify

/-- What stands behind an item or a field: whether the bracket closes here. -/
def separator (close : Char) : ByteReader Bool := do
  skipSpaces
  if ← eat close then return true
  else if ← eat ',' then return false
  else fail (.separator close)

/-- A compound; `braces` reads it from its opening brace on. -/
def opened (braces : ByteReader Record) : ByteReader Record := do
  skipSpaces
  if ← eat '\x7b' then braces else fail .compound

/-- A list at its opening bracket; `items` reads them up to the closing one. -/
def list (items : ByteReader (List Value)) : ByteReader Value := do
  discard (eat '[')
  skipSpaces
  if ← eat ']' then return .list []
  else return .list (← items)

mutual
def value : Nat → ByteReader Value
  | 0 => stuck
  | n + 1 => do
    skipSpaces
    match ← peek? with
    | some '\x7b' => return .compound (← opened (braces n))
    | some '[' => list (items n [])
    | _ => scalar

/-- The items of a list up to its closing bracket; `read` is newest first. -/
def items : Nat → List Value → ByteReader (List Value)
  | 0, _ => stuck
  | n + 1, read => do
    let v ← value n
    if ← separator ']' then return (v :: read).reverse
    else items n (v :: read)

/-- A compound after its opening brace. -/
def braces : Nat → ByteReader Record
  | 0 => stuck
  | n + 1 => do
    skipSpaces
    if ← eat '\x7d' then return []
    else fields n []

/-- The fields of a compound up to its closing brace. -/
def fields : Nat → Record → ByteReader Record
  | 0, _ => stuck
  | n + 1, record => do
    skipSpaces
    let name ← key
    skipSpaces
    if ← eat ':' then
      let v ← value n
      if ← separator '\x7d' then return record.insert name v
      else fields n (record.insert name v)
    else fail .colon
end

def compound : ByteReader Record := opened do
  braces (Compound.fuelFor (← rest))

end ByteReader

namespace Reads

variable {α : Type} {c : Cursor}

theorem fail (hc : c.Valid) (cause : Compound.Cause) : Reads (α := α) (ByteReader.fail cause) c c
    (.error ((CommandError.invalid cause.message).atPlace c.source c.position)) :=
  (get c).bind (throw ⟨_, rfl, hc.isValid⟩)

end Reads

namespace Compound

variable {α β : Type} {p : ByteReader α} {f : α → ByteReader β} {c mid next : Cursor} {a : α}
  {cs rest : List Char} {r : Result β} {n : Nat}

/-- The error of a failure in front of what is left at a cursor. -/
def Cause.error (cause : Cause) (c : Cursor) : CommandError :=
  (CommandError.invalid cause.message).atPlace c.source c.position

/-- Reading from `c` comes to a result and stops in front of the rest that the result leaves. -/
def Follows (p : ByteReader α) (c : Cursor) : Result α → Prop
  | .ok (a, rest) => ∃ next, next.rest = rest ∧ Reads p c next (.ok a)
  | .error f => ∃ next, next.rest = f.rest ∧ Reads p c next (.error (f.cause.error next))

namespace Follows

theorem pure (a : α) (h : c.rest = rest) : Follows (Pure.pure a) c (.ok (a, rest)) :=
  ⟨c, h, .pure a c⟩

theorem fail (hc : c.Valid) (cause : Cause) (h : c.rest = rest) :
    Follows (α := α) (ByteReader.fail cause) c (.error ⟨cause, rest⟩) := ⟨c, h, .fail hc cause⟩

/-- What comes after a first step. -/
theorem after (hp : Reads p c mid (.ok a)) (hf : Follows (f a) mid r) : Follows (p >>= f) c r := by
  cases r with
  | ok result =>
    obtain ⟨next, hrest, hnext⟩ := hf
    exact ⟨next, hrest, hp.bind hnext⟩
  | error failure =>
    obtain ⟨next, hrest, hnext⟩ := hf
    exact ⟨next, hrest, hp.bind hnext⟩

theorem bind_error {failure : Failure} (hp : Follows p c (.error failure)) :
    Follows (p >>= f) c (.error failure) := by
  obtain ⟨next, hrest, hnext⟩ := hp
  exact ⟨next, hrest, hnext.bind_error⟩

/-- A step that fails is the end; what comes after one that does not goes on where it stopped. -/
theorem bind {x : Result α} (hp : Follows p c x)
    (hfail : ∀ failure, x = .error failure → r = .error failure)
    (hf : ∀ a mid, x = .ok (a, mid.rest) → Reads p c mid (.ok a) → Follows (f a) mid r) :
    Follows (p >>= f) c r := by
  cases x with
  | ok result =>
    obtain ⟨mid, hrest, hmid⟩ := hp
    exact after hmid (hf result.1 mid (by rw [hrest]) hmid)
  | error failure =>
    rw [hfail failure rfl]
    exact bind_error hp

end Follows

/-! ### Tokens -/

/-- Nothing and something may follow a backslash, so this is none. -/
theorem ne_backslash {ch : Char} (hend : ch = '\\' → rest = [] → False)
    (hescape : ∀ d tail, ch = '\\' → rest = d :: tail → False) : ch ≠ '\\' := by
  rintro rfl
  cases rest with
  | nil => exact hend rfl rfl
  | cons d tail => exact hescape d tail rfl rfl

/-- A character that is no backslash ends the quoted text or belongs to it. -/
theorem follows_quotedFrom_cons {quote ch : Char} {taken : List Char} {r : Result (List Char)}
    (hc : c.Valid) (hcs : c.rest = ch :: rest) (hslash : ch ≠ '\\')
    (h : Follows (if ch == quote then Pure.pure taken.reverse
      else ByteReader.quotedFrom quote n (ch :: taken)) (c.skip 1) r) :
    Follows (ByteReader.quotedFrom quote (n + 1) taken) c r := by
  have hfirst := Reads.advance hc
  rw [Cursor.peek?_of_cons hcs] at hfirst
  rw [ByteReader.quotedFrom]
  refine .after hfirst ?_
  split
  · next heq => cases heq
  · next heq => exact absurd (Option.some.inj heq) hslash
  · next heq =>
    cases heq
    exact h

theorem follows_quotedFrom (quote : Char) (taken : List Char) (hc : c.Valid)
    (hn : c.rest.length ≤ n) :
    Follows (ByteReader.quotedFrom quote (n + 1) taken) c (readQuoted quote taken c.rest) := by
  generalize hcs : c.rest = cs at hn
  fun_induction readQuoted quote taken cs generalizing c n with
  | case1 =>
    have hfirst := Reads.advance hc
    rw [Cursor.peek?_of_nil hcs, Cursor.skip_of_nil hcs] at hfirst
    rw [ByteReader.quotedFrom]
    exact .after hfirst (.fail hc _ hcs)
  | case2 =>
    have hrest := Cursor.rest_skip_one hcs
    have hvalid := Cursor.valid_skip hc 1
    have hfirst := Reads.advance hc
    have hsecond := Reads.advance hvalid
    rw [Cursor.peek?_of_cons hcs] at hfirst
    rw [Cursor.peek?_of_nil hrest, Cursor.skip_of_nil hrest] at hsecond
    rw [ByteReader.quotedFrom]
    exact .after hfirst (.after hsecond (.fail hvalid _ hrest))
  | case3 taken ch rest ih =>
    have hrest := Cursor.rest_skip_one hcs
    have hvalid := Cursor.valid_skip hc 1
    have hfirst := Reads.advance hc
    have hsecond := Reads.advance hvalid
    rw [Cursor.peek?_of_cons hcs] at hfirst
    rw [Cursor.peek?_of_cons hrest] at hsecond
    rw [List.length_cons, List.length_cons] at hn
    obtain ⟨m, rfl⟩ : ∃ m, n = m + 1 := ⟨n - 1, by omega⟩
    rw [ByteReader.quotedFrom]
    exact .after hfirst <| .after hsecond <|
      ih (Cursor.valid_skip hvalid 1) (Cursor.rest_skip_one hrest) (by omega)
  | case4 taken ch rest hend hescape hquote =>
    refine follows_quotedFrom_cons hc hcs (ne_backslash hend hescape) ?_
    rw [if_pos hquote]
    exact .pure _ (Cursor.rest_skip_one hcs)
  | case5 taken ch rest hend hescape hquote ih =>
    rw [List.length_cons] at hn
    obtain ⟨m, rfl⟩ : ∃ m, n = m + 1 := ⟨n - 1, by omega⟩
    refine follows_quotedFrom_cons hc hcs (ne_backslash hend hescape) ?_
    rw [if_neg hquote]
    exact ih (Cursor.valid_skip hc 1) (Cursor.rest_skip_one hcs) (by omega)

theorem reads_advances (w : List Char) (hc : c.Valid) :
    Reads (w.forM fun _ => discard ByteReader.advance) c (c.skip w.length) (.ok ()) := by
  induction w generalizing c with
  | nil => exact .pure () c
  | cons ch w ih =>
    have hnext := ih (Cursor.valid_skip hc 1)
    rw [Cursor.skip_skip, Nat.add_comm] at hnext
    exact ((Reads.advance hc).bind (.pure () _)).bind hnext

theorem reads_bare (hc : c.Valid) : Reads ByteReader.bare c
    (c.skip (c.rest.takeWhile Value.isBareChar).length) (.ok (c.rest.takeWhile Value.isBareChar)) := by
  have htake := List.prefix_iff_eq_take.mp (List.takeWhile_prefix Value.isBareChar (l := c.rest))
  have hslice := Text.slice?_take c.rest (c.rest.takeWhile Value.isBareChar).length
  rw [← htake] at hslice
  exact (Reads.rest hc).bind <| (Reads.slice hslice c).bind <| (reads_advances _ hc).bind <|
    Reads.slice hslice _

theorem reads_splitSuffix (w : List Char) (c : Cursor) :
    Reads (ByteReader.splitSuffix w) c c (.ok (splitSuffix w)) := by
  obtain rfl | ⟨before, ch, rfl⟩ := List.eq_nil_or_concat w
  · exact .pure none c
  rw [List.concat_eq_append]
  have hslice : Text.slice? (before ++ [ch]) 0 (Text.width before) = some before :=
    Text.slice?_eq_some_iff.mpr ⟨[], [ch], rfl, rfl, Nat.zero_add _⟩
  have hsuffix : splitSuffix (before ++ [ch]) =
      if ch.isAlpha && 0 < Text.width before then some (before, ch.toLower) else none := by
    obtain rfl | ⟨front, d, rfl⟩ := List.eq_nil_or_concat before
    · simp [splitSuffix]
    · have hpos : 0 < Text.width front + d.utf8Size := Nat.add_pos_right _ d.utf8Size_pos
      simp [splitSuffix, hpos]
  rw [ByteReader.splitSuffix, List.getLast?_concat, List.dropLast_concat, hsuffix]
  by_cases hletter : (ch.isAlpha && decide (0 < Text.width before)) = true
  · rw [if_pos hletter]
    dsimp only
    rw [if_pos hletter]
    exact (Reads.slice hslice c).bind (.pure _ c)
  · rw [if_neg hletter]
    dsimp only
    rw [if_neg hletter]
    exact .pure none c

theorem reads_number? (w : List Char) (c : Cursor) :
    Reads (ByteReader.number? w) c c (.ok (number? w)) := by
  refine (reads_splitSuffix w c).bind ?_
  rw [number?]
  cases splitSuffix w with
  | none => exact .pure _ c
  | some parts => exact .pure _ c

theorem reads_classify (w : List Char) (c : Cursor) :
    Reads (ByteReader.classify w) c c (.ok (classify w)) := by
  rw [ByteReader.classify, classify]
  split
  · exact .pure _ c
  · split
    · exact .pure _ c
    · exact (reads_number? w c).bind (.pure _ c)

theorem follows_quoted {quote : Char} (hc : c.Valid) (hcs : c.rest = quote :: rest) :
    Follows ByteReader.quoted c (readQuoted quote [] rest) := by
  have hfirst := Reads.advance hc
  rw [Cursor.peek?_of_cons hcs] at hfirst
  have hopen := Cursor.valid_skip hc 1
  have hquoted := follows_quotedFrom quote [] hopen (Nat.le_refl _)
  rw [Cursor.rest_skip_one hcs] at hquoted
  exact .after hfirst (.after (.rest hopen) (by rwa [Cursor.rest_skip_one hcs]))

/-- A token is a quoted text or a bare word. -/
theorem follows_token {missing : Cause} {text bare : List Char → α} {meaning : List Char → ByteReader α}
    (hmeaning : ∀ w c, Reads (meaning w) c c (.ok (bare w))) (hc : c.Valid) :
    Follows (ByteReader.token missing text meaning) c (readToken missing text bare c.rest) := by
  refine .after (Reads.peek hc) ?_
  have hbare := reads_bare hc
  cases hcs : c.rest with
  | nil =>
    rw [hcs, List.takeWhile_nil] at hbare
    rw [Cursor.peek?_of_nil hcs]
    exact .after hbare (.fail hc _ hcs)
  | cons ch rest =>
    rw [Cursor.peek?_of_cons hcs, readToken, Option.any_some]
    by_cases hquote : isQuote ch = true
    · have hquoted := follows_quoted hc hcs
      rw [if_pos hquote, if_pos hquote]
      exact hquoted.bind (fun _ h => by rw [h]) fun t mid h _ => by rw [h]; exact .pure _ rfl
    · rw [hcs] at hbare
      rw [if_neg hquote, if_neg hquote]
      refine .after hbare ?_
      dsimp only
      split
      · next hempty =>
        rw [List.isEmpty_iff.mp hempty]
        exact .fail hc _ hcs
      · exact ⟨_, by rw [Cursor.skip, hcs], hmeaning _ _⟩

theorem follows_key (hc : c.Valid) : Follows ByteReader.key c (readKey c.rest) :=
  follows_token (fun _ _ => .pure _ _) hc

theorem follows_scalar (hc : c.Valid) : Follows ByteReader.scalar c (readScalar c.rest) :=
  follows_token reads_classify hc

/-! ### Values -/

/-- With enough fuel for the characters, the two readers keep pace. -/
structure Paced (n : Nat) : Prop where
  value {c : Cursor} (hc : c.Valid) (hn : 3 * c.rest.length + 1 ≤ n) :
    Follows (ByteReader.value n) c (readValue n c.rest)
  items {c : Cursor} (read : List Value) (hc : c.Valid) (hn : 3 * c.rest.length + 2 ≤ n) :
    Follows (ByteReader.items n read) c (readItems n read c.rest)
  braces {c : Cursor} (hc : c.Valid) (hn : 3 * c.rest.length + 2 ≤ n) :
    Follows (ByteReader.braces n) c (readBraces n c.rest)
  fields {c : Cursor} (record : Record) (hc : c.Valid) (hn : 3 * c.rest.length + 1 ≤ n) :
    Follows (ByteReader.fields n record) c (readFields n record c.rest)

/-- Behind the spaces. -/
theorem exists_stop (hc : c.Valid) : ∃ stop, stop.Valid ∧ stop.rest = skipSpaces c.rest ∧
    stop.rest.length ≤ c.rest.length ∧ Reads ByteReader.skipSpaces c stop (.ok ()) :=
  ⟨c.skipSpaces, Cursor.valid_skipSpaces hc, Cursor.rest_skipSpaces c, Cursor.length_skipSpaces_le c,
    .skipSpaces hc⟩

theorem length_lt_of_skipSpaces {ch : Char} (h : skipSpaces cs = ch :: rest) :
    rest.length < cs.length := by
  have hle := (List.dropWhile_suffix Cursor.isSpace (l := cs)).length_le
  rw [← skipSpaces, h, List.length_cons] at hle
  exact hle

variable {close : Char}

theorem exists_separator_close (hc : c.Valid) (h : skipSpaces c.rest = close :: rest) :
    ∃ next, next.rest = rest ∧ Reads (ByteReader.separator close) c next (.ok true) := by
  obtain ⟨stop, hstop, hrest, -, hskip⟩ := exists_stop hc
  rw [← hrest] at h
  exact ⟨stop.skip 1, Cursor.rest_skip_one h, hskip.bind ((Reads.eat hstop h).bind (.pure true _))⟩

theorem exists_separator_comma (hc : c.Valid) (hclose : close ≠ ',')
    (h : skipSpaces c.rest = ',' :: rest) :
    ∃ next, next.rest = rest ∧ Reads (ByteReader.separator close) c next (.ok false) := by
  obtain ⟨stop, hstop, hrest, -, hskip⟩ := exists_stop hc
  rw [← hrest] at h
  have hother : stop.peek? ≠ some close := by
    rw [Cursor.peek?_of_cons h]
    exact fun heq => hclose (Option.some.inj heq).symm
  exact ⟨stop.skip 1, Cursor.rest_skip_one h, hskip.bind <| (Reads.eat_other hstop hother).bind <|
    (Reads.eat hstop h).bind (.pure false _)⟩

theorem follows_separator_missing (hc : c.Valid)
    (hclose : ∀ tail, skipSpaces c.rest = close :: tail → False)
    (hcomma : ∀ tail, skipSpaces c.rest = ',' :: tail → False) :
    Follows (ByteReader.separator close) c (.error ⟨.separator close, skipSpaces c.rest⟩) := by
  obtain ⟨stop, hstop, hrest, -, hskip⟩ := exists_stop hc
  rw [← hrest] at hclose hcomma ⊢
  exact .after hskip <| .after (Reads.eat_other hstop (Cursor.peek?_ne hclose)) <|
    .after (Reads.eat_other hstop (Cursor.peek?_ne hcomma)) (.fail hstop _ rfl)

theorem Paced.items_succ (ih : Paced n) (read : List Value) (hc : c.Valid)
    (hn : 3 * c.rest.length + 2 ≤ n + 1) :
    Follows (ByteReader.items (n + 1) read) c (readItems (n + 1) read c.rest) := by
  rw [ByteReader.items, readItems]
  refine (ih.value hc (by omega)).bind (fun _ h => by rw [h]) fun v mid hread hmid => ?_
  rw [hread]
  have hvalid := hmid.valid hc
  have hlength := hmid.length_le
  dsimp only
  split
  · next rest hclose =>
    obtain ⟨next, hrest, hnext⟩ := exists_separator_close hvalid hclose
    exact .after hnext (.pure _ hrest)
  · next rest hcomma =>
    obtain ⟨next, rfl, hnext⟩ := exists_separator_comma hvalid (show ']' ≠ ',' by decide) hcomma
    have hshorter := length_lt_of_skipSpaces hcomma
    exact .after hnext (ih.items (v :: read) (hnext.valid hvalid) (by omega))
  · next hclose hcomma => exact .bind_error (follows_separator_missing hvalid hclose hcomma)

theorem Paced.braces_succ (ih : Paced n) (hc : c.Valid) (hn : 3 * c.rest.length + 2 ≤ n + 1) :
    Follows (ByteReader.braces (n + 1)) c (readBraces (n + 1) c.rest) := by
  obtain ⟨stop, hstop, hrest, hshorter, hskip⟩ := exists_stop hc
  rw [ByteReader.braces, readBraces]
  refine .after hskip ?_
  rw [← hrest]
  split
  · next rest hclose =>
    exact .after (Reads.eat hstop hclose) (.pure _ (Cursor.rest_skip_one hclose))
  · next hclose =>
    exact .after (Reads.eat_other hstop (Cursor.peek?_ne hclose)) (ih.fields [] hstop (by omega))

theorem Paced.fields_succ (ih : Paced n) (record : Record) (hc : c.Valid)
    (hn : 3 * c.rest.length + 1 ≤ n + 1) :
    Follows (ByteReader.fields (n + 1) record) c (readFields (n + 1) record c.rest) := by
  obtain ⟨start, hstart, hrest, hshorter, hskip⟩ := exists_stop hc
  rw [ByteReader.fields, readFields]
  refine .after hskip ?_
  rw [← hrest]
  refine (follows_key hstart).bind (fun _ h => by rw [h]) fun name named hread hnamed => ?_
  rw [hread]
  have hbehind := hnamed.length_le
  obtain ⟨mark, hmark, hrest', hshorter', hskip'⟩ := exists_stop (hnamed.valid hstart)
  refine .after hskip' ?_
  dsimp only
  rw [← hrest']
  split
  · next tail hcolon =>
    have hopen := Cursor.valid_skip hmark 1
    have htail := Cursor.rest_skip_one hcolon
    refine .after (Reads.eat hmark hcolon) ?_
    rw [hcolon, List.length_cons] at hshorter'
    rw [← htail] at hshorter' ⊢
    refine (ih.value hopen (by omega)).bind (fun _ h => by rw [h]) fun v mid hread hmid => ?_
    rw [hread]
    have hvalid := hmid.valid hopen
    have hafter := hmid.length_le
    dsimp only
    split
    · next rest hclose =>
      obtain ⟨next, hrest, hnext⟩ := exists_separator_close hvalid hclose
      exact .after hnext (.pure _ hrest)
    · next rest hcomma =>
      obtain ⟨next, rfl, hnext⟩ := exists_separator_comma hvalid (show '\x7d' ≠ ',' by decide) hcomma
      have hshorter := length_lt_of_skipSpaces hcomma
      exact .after hnext (ih.fields (record.insert name v) (hnext.valid hvalid) (by omega))
    · next hclose hcomma => exact .bind_error (follows_separator_missing hvalid hclose hcomma)
  · next hcolon =>
    exact .after (Reads.eat_other hmark (Cursor.peek?_ne hcolon)) (.fail hmark _ rfl)

theorem skipSpaces_skipSpaces (cs : List Char) : skipSpaces (skipSpaces cs) = skipSpaces cs := by
  obtain ⟨s, hs, heq⟩ := exists_spaces cs
  have hspaces := skipSpaces_append hs (skipSpaces cs)
  rw [← heq] at hspaces
  exact hspaces.symm

/-- The spaces in front of the first item may be passed over before. -/
theorem readItems_skipSpaces (read : List Value) (cs : List Char) (n : Nat) :
    readItems (n + 2) read (skipSpaces cs) = readItems (n + 2) read cs := by
  rw [readItems, readItems, readValue, readValue, skipSpaces_skipSpaces]

theorem Paced.list_of_bracket (ih : Paced n) (hc : c.Valid) (h : c.rest = '[' :: rest)
    (hn : 3 * c.rest.length + 1 ≤ n + 1) :
    Follows (ByteReader.list (ByteReader.items n [])) c (readValue (n + 1) c.rest) := by
  have hopen := Cursor.valid_skip hc 1
  have hrest := Cursor.rest_skip_one h
  obtain ⟨stop, hstop, hspaces, hshorter, hskip⟩ := exists_stop hopen
  rw [hrest] at hspaces hshorter
  rw [ByteReader.list, h]
  simp only [readValue, skipSpaces_cons rest (show '[' ≠ ' ' by decide)]
  refine .after ((Reads.eat hc h).bind (.pure () _)) (.after hskip ?_)
  rw [h, List.length_cons] at hn
  split
  · next tail hclose =>
    rw [← hspaces] at hclose
    exact .after (Reads.eat hstop hclose) (.pure _ (Cursor.rest_skip_one hclose))
  · next hclose =>
    rw [← hspaces] at hclose
    refine .after (Reads.eat_other hstop (Cursor.peek?_ne hclose)) ?_
    obtain ⟨m, rfl⟩ : ∃ m, n = m + 2 := ⟨n - 2, by omega⟩
    have hitems := ih.items [] hstop (by omega)
    rw [hspaces, readItems_skipSpaces] at hitems
    exact hitems.bind (fun _ h => by rw [h]) fun items mid h _ => by rw [h]; exact .pure _ rfl

theorem follows_opened {braces : ByteReader Record} {r : Result Record} (hc : c.Valid)
    (h : skipSpaces c.rest = '\x7b' :: rest)
    (hbraces : ∀ mid : Cursor, mid.Valid → mid.rest = rest → Follows braces mid r) :
    Follows (ByteReader.opened braces) c r := by
  obtain ⟨stop, hstop, hrest, -, hskip⟩ := exists_stop hc
  rw [← hrest] at h
  exact .after hskip <| .after (Reads.eat hstop h) <|
    hbraces _ (Cursor.valid_skip hstop 1) (Cursor.rest_skip_one h)

theorem Paced.value_succ (ih : Paced n) (hc : c.Valid) (hn : 3 * c.rest.length + 1 ≤ n + 1) :
    Follows (ByteReader.value (n + 1)) c (readValue (n + 1) c.rest) := by
  obtain ⟨stop, hstop, hrest, hshorter, hskip⟩ := exists_stop hc
  have hspaces : skipSpaces stop.rest = stop.rest := by
    rw [hrest, skipSpaces_skipSpaces]
  have hagain : readValue (n + 1) c.rest = readValue (n + 1) stop.rest := by
    rw [readValue, readValue, hspaces, hrest]
  rw [ByteReader.value, hagain]
  refine .after hskip (.after (Reads.peek hstop) ?_)
  split
  · next hbrace =>
    obtain ⟨tail, hbrace⟩ := List.head?_eq_some_iff.mp hbrace
    have hcompound := follows_opened hstop (hspaces.trans hbrace) fun mid hmid hbehind =>
      hbehind ▸ ih.braces hmid (by grind)
    simp only [readValue, hspaces.trans hbrace]
    exact hcompound.bind (fun _ h => by rw [h]) fun r mid h _ => by rw [h]; exact .pure _ rfl
  · next hbracket =>
    obtain ⟨tail, hbracket⟩ := List.head?_eq_some_iff.mp hbracket
    exact ih.list_of_bracket hstop hbracket (by omega)
  · next hbrace hbracket =>
    rw [readValue, hspaces]
    split
    · next hopen => exact absurd (Cursor.peek?_of_cons hopen) hbrace
    · next hopen => exact absurd (Cursor.peek?_of_cons hopen) hbracket
    · exact follows_scalar hstop

theorem paced (n : Nat) : Paced n := by
  induction n with
  | zero => exact ⟨fun _ hn => absurd hn (by omega), fun _ _ hn => absurd hn (by omega),
      fun _ hn => absurd hn (by omega), fun _ _ hn => absurd hn (by omega)⟩
  | succ n ih => exact ⟨ih.value_succ, ih.items_succ, ih.braces_succ, ih.fields_succ⟩

/-- The reader of compounds ends on every text, with what the reader of characters finds. -/
theorem follows_read (hc : c.Valid) : Follows ByteReader.compound c (read c.rest) := by
  rw [read]
  split
  · next rest hbrace =>
    refine follows_opened hc hbrace fun mid hmid hbehind => ?_
    subst hbehind
    exact .after (.rest hmid) ((paced _).braces hmid (Nat.le_succ _))
  · next hbrace =>
    obtain ⟨stop, hstop, hrest, -, hskip⟩ := exists_stop hc
    rw [← hrest] at hbrace ⊢
    exact .after hskip (.after (Reads.eat_other hstop (Cursor.peek?_ne hbrace)) (.fail hstop _ rfl))

end Compound

/-- A cursor moved on to the rest of one further on stands where that one does. -/
theorem Cursor.moveTo_skip (c : Cursor) (n : Nat) : c.moveTo (c.skip n).rest = c.skip n := by
  have hwidth : Text.width c.rest = Text.width (c.rest.take n) + Text.width (c.rest.drop n) := by
    rw [← Text.width_append, List.take_append_drop]
  rw [moveTo, skip, hwidth, Nat.add_sub_cancel]

theorem Keeps.compound {c : Cursor} (hc : c.Valid) : Keeps ByteReader.compound c c.compound := by
  have hread := Compound.follows_read hc
  rw [Cursor.compound]
  split
  · next r rest heq =>
    rw [heq] at hread
    obtain ⟨next, rfl, hnext⟩ := hread
    obtain ⟨n, rfl⟩ := hnext.ahead
    rw [Cursor.moveTo_skip]
    exact hnext
  · next f heq =>
    rw [heq] at hread
    obtain ⟨next, hrest, hnext⟩ := hread
    obtain ⟨n, rfl⟩ := hnext.ahead
    rw [← hrest, Cursor.moveTo_skip]
    exact ⟨_, hnext⟩

end Trampoline
