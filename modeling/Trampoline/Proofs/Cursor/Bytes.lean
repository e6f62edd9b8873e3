import Trampoline.Proofs.Cursor

/-! A cursor that is a byte position.

`ByteCursor` keeps of a cursor only the text and the position. What is left to read is a slice of
the text, and a slice is nothing unless both its ends stand between two characters
(`slice?_eq_some_iff`). The operations move the position by the width of a character, by the
position where a space was found, by the width of a keyword or, over a space, by one. An operation
that asks for a slice there is none of has no result, and neither has a loop that goes round more
often than there are characters.

Each of them has one on every valid cursor: it answers what the cursor with its characters answers,
and stops where that one does (`Reads`). -/
namespace Trampoline

namespace Text

/-- The characters between two byte positions. -/
def slice? (cs : List Char) (start stop : Nat) : Option (List Char) :=
  let (before, after) := cut start cs
  let (piece, _) := cut (stop - start) after
  if width before = start ∧ start + width piece = stop then some piece else none

/-- A slice is cut out between characters, or not at all. -/
theorem slice?_eq_some_iff {cs piece : List Char} {start stop : Nat} :
    slice? cs start stop = some piece ↔
      ∃ before after, cs = before ++ (piece ++ after) ∧ width before = start ∧
        start + width piece = stop := by
  constructor
  · intro h
    simp only [slice?, Option.ite_none_right_eq_some, Option.some.injEq] at h
    obtain ⟨⟨hstart, hstop⟩, rfl⟩ := h
    exact ⟨_, _, by rw [cut_append, cut_append], hstart, hstop⟩
  · rintro ⟨before, after, rfl, rfl, rfl⟩
    simp [slice?, cut_width]

example : slice? ['n', 'é', '!'] 1 3 = some ['é'] ∧ slice? ['n', 'é', '!'] 0 2 = none := by decide

/-- The beginning of a text. -/
theorem slice?_take (cs : List Char) (n : Nat) :
    slice? cs 0 (width (cs.take n)) = some (cs.take n) :=
  slice?_eq_some_iff.mpr ⟨[], cs.drop n, (List.take_append_drop n cs).symm, rfl, Nat.zero_add _⟩

end Text

/-- A text and a byte position in it. -/
structure ByteCursor where
  source : String
  position : Nat

/-- The error has a place in the text, and that is between two characters. -/
def CommandError.PointsInto (e : CommandError) (source : String) : Prop :=
  ∃ position, e.place = some ⟨source, position⟩ ∧ (⟨position⟩ : String.Pos.Raw).IsValid source

/-- Reading at a byte cursor. After an error the cursor stays where it was. -/
abbrev ByteReader (α : Type) := ExceptT CommandError (StateT ByteCursor Option) α

namespace ByteReader

variable {α : Type}

/-! ### Operations -/

/-- No result. -/
def stuck : ByteReader α := fun _ => none

/-- A slice that has to be there. -/
def slice (cs : List Char) (start stop : Nat) : ByteReader (List Char) := do
  match Text.slice? cs start stop with
  | some piece => return piece
  | none => stuck

def rest : ByteReader (List Char) := do
  let c ← get
  slice c.source.toList c.position c.source.utf8ByteSize

def atEnd : ByteReader Bool := do
  let c ← get
  return c.source.utf8ByteSize ≤ c.position

def peek? : ByteReader (Option Char) := do
  return (← rest).head?

/-- Moves on by so many bytes, whatever stands there. -/
def move (bytes : Nat) : ByteReader Unit := modify fun c => { c with position := c.position + bytes }

def advance : ByteReader (Option Char) := do
  match ← peek? with
  | none => return none
  | some ch =>
    move ch.utf8Size
    return some ch

def eat (ch : Char) : ByteReader Bool := do
  if (← peek?) == some ch then
    move ch.utf8Size
    return true
  else return false

/-- Over the spaces one by one. A loop that goes round too often has no result. -/
def spaces : Nat → ByteReader Unit
  | 0 => stuck
  | n + 1 => do
    if (← peek?) == some ' ' then
      move 1
      spaces n

def skipSpaces : ByteReader Unit := do
  spaces ((← rest).length + 1)

def word : ByteReader (List Char) := do
  let start ← get
  let rest ← rest
  move (Text.width (rest.takeWhile fun ch => !Cursor.isSpace ch))
  let stop ← get
  let w ← slice stop.source.toList start.position stop.position
  skipSpaces
  return w

def incomplete : ByteReader α := do
  throw (.unknownCommand (← get).source)

def invalidAt (position : Nat) : ByteReader α := do
  throw (.unknownArgument (← get).source position)

def invalid : ByteReader α := do
  invalidAt (← get).position

def expectWord : ByteReader (List Char) := do
  if ← atEnd then incomplete else word

def eatKeyword (keyword : String) : ByteReader Bool := do
  let rest ← rest
  if keyword.toList.isPrefixOf rest &&
      ((rest.drop keyword.toList.length).head?.all Cursor.isSpace) then
    move keyword.utf8ByteSize
    skipSpaces
    return true
  else return false

def number (read : List Char → Option α) : ByteReader α := do
  let start ← get
  let w ← expectWord
  match read w with
  | some n => return n
  | none => invalidAt start.position

def remaining : ByteReader String := do
  let rest ← rest
  modify fun c => { c with position := c.source.utf8ByteSize }
  return String.ofList rest

end ByteReader

/-! ### What reading does -/

/-- The byte cursor at the same place. -/
def Cursor.bytes (c : Cursor) : ByteCursor := ⟨c.source, c.position⟩

/-- Reading from `c` ends at `next`, further on in the same text, and with `result`; an error it
ends with points between two characters. -/
structure Reads {α : Type} (p : ByteReader α) (c next : Cursor) (result : Except CommandError α) :
    Prop where
  run : p c.bytes = some (result, next.bytes)
  ahead : ∃ n, next = c.skip n
  points : ∀ e, result = .error e → e.PointsInto c.source

namespace Reads
open ByteReader (slice move)

variable {α β : Type} {p : ByteReader α} {f : α → ByteReader β} {c mid next : Cursor} {a : α}
  {e : CommandError} {result : Except CommandError β}

theorem of_ok (hrun : p c.bytes = some (.ok a, next.bytes)) (hahead : ∃ n, next = c.skip n) :
    Reads p c next (.ok a) :=
  ⟨hrun, hahead, fun _ he => nomatch he⟩

theorem valid {result : Except CommandError α} (h : Reads p c next result) (hc : c.Valid) :
    next.Valid := by
  obtain ⟨n, rfl⟩ := h.ahead
  exact Cursor.valid_skip hc n

theorem length_le {result : Except CommandError α} (h : Reads p c next result) :
    next.rest.length ≤ c.rest.length := by
  obtain ⟨n, rfl⟩ := h.ahead
  rw [Cursor.length_skip]
  exact Nat.sub_le ..

/-- Further on than a cursor that is further on. -/
theorem trans_ahead {q : ByteReader β} {x : Except CommandError α} {y : Except CommandError β}
    (hp : Reads p c mid x) (hq : Reads q mid next y) : ∃ n, next = c.skip n := by
  obtain ⟨n, rfl⟩ := hp.ahead
  obtain ⟨m, rfl⟩ := hq.ahead
  exact ⟨n + m, Cursor.skip_skip c n m⟩

/-! ### Sequences -/

theorem pure (a : α) (c : Cursor) : Reads (Pure.pure a) c c (.ok a) := of_ok rfl ⟨0, rfl⟩

theorem get (c : Cursor) : Reads MonadState.get c c (.ok c.bytes) := of_ok rfl ⟨0, rfl⟩

theorem throw (he : e.PointsInto c.source) :
    Reads (MonadExcept.throw e : ByteReader α) c c (.error e) :=
  ⟨rfl, ⟨0, rfl⟩, fun _ heq => by cases heq; exact he⟩

theorem bind (hp : Reads p c mid (.ok a)) (hf : Reads (f a) mid next result) :
    Reads (p >>= f) c next result where
  run := by
    have hrun : (p >>= f) c.bytes = f a mid.bytes := by
      change (p c.bytes).bind _ = _
      rw [hp.run]
      rfl
    rw [hrun, hf.run]
  ahead := hp.trans_ahead hf
  points := by
    obtain ⟨n, rfl⟩ := hp.ahead
    exact hf.points

theorem bind_error (hp : Reads p c next (.error e)) : Reads (p >>= f) c next (.error e) where
  run := by
    change (p c.bytes).bind _ = _
    rw [hp.run]
    rfl
  ahead := hp.ahead
  points := fun e' he => hp.points e' (by cases he; rfl)

/-! ### Slices and moves -/

theorem slice {cs piece : List Char} {start stop : Nat} (h : Text.slice? cs start stop = some piece)
    (c : Cursor) : Reads (slice cs start stop) c c (.ok piece) := by
  rw [ByteReader.slice, h]
  exact pure piece c

theorem move (c : Cursor) (n : Nat) :
    Reads (move (Text.width (c.rest.take n))) c (c.skip n) (.ok ()) := of_ok rfl ⟨n, rfl⟩

theorem move_one (c : Cursor) {ch : Char} {rest : List Char} (h : c.rest = ch :: rest) :
    Reads (ByteReader.move ch.utf8Size) c (c.skip 1) (.ok ()) := by
  have hmove := move c 1
  rw [h] at hmove
  simpa using hmove

theorem rest (hc : c.Valid) : Reads ByteReader.rest c c (.ok c.rest) := by
  refine (get c).bind (slice ?_ c)
  obtain ⟨read, hsource, hposition⟩ := id hc
  rw [Text.slice?_eq_some_iff]
  exact ⟨read, [], by rw [List.append_nil]; exact hsource, hposition.symm, hc.width_rest⟩

theorem atEnd (hc : c.Valid) : Reads ByteReader.atEnd c c (.ok c.atEnd) := by
  have hend : decide (c.source.utf8ByteSize ≤ c.position) = c.atEnd := by
    have hwidth := hc.width_rest
    rw [Cursor.atEnd, Bool.eq_iff_iff, decide_eq_true_iff, List.isEmpty_iff]
    cases hrest : c.rest with
    | nil =>
      rw [hrest, Text.width_nil] at hwidth
      simp only [iff_true]
      omega
    | cons ch rest =>
      have hsize := ch.utf8Size_pos
      rw [hrest, Text.width_cons] at hwidth
      simp only [reduceCtorEq, iff_false]
      omega
  rw [← hend]
  exact (get c).bind (pure _ c)

theorem peek (hc : c.Valid) : Reads ByteReader.peek? c c (.ok c.peek?) := (rest hc).bind (pure _ c)

/-! ### Characters -/

theorem advance (hc : c.Valid) : Reads ByteReader.advance c (c.skip 1) (.ok c.peek?) := by
  refine (peek hc).bind ?_
  cases hrest : c.rest with
  | nil =>
    rw [Cursor.peek?_of_nil hrest, Cursor.skip_of_nil hrest]
    exact pure none c
  | cons ch tail =>
    rw [Cursor.peek?_of_cons hrest]
    exact (move_one c hrest).bind (pure _ _)

theorem eat (hc : c.Valid) {ch : Char} {tail : List Char} (h : c.rest = ch :: tail) :
    Reads (ByteReader.eat ch) c (c.skip 1) (.ok true) := by
  refine (peek hc).bind ?_
  rw [Cursor.peek?_of_cons h, if_pos (beq_self_eq_true _)]
  exact (move_one c h).bind (pure true _)

theorem eat_other (hc : c.Valid) {ch : Char} (h : c.peek? ≠ some ch) :
    Reads (ByteReader.eat ch) c c (.ok false) := by
  refine (peek hc).bind ?_
  rw [if_neg (by simpa using h)]
  exact pure false c

theorem spaces {n : Nat} (hc : c.Valid) (hn : c.rest.length < n) :
    Reads (ByteReader.spaces n) c c.skipSpaces (.ok ()) := by
  induction n generalizing c with
  | zero => exact absurd hn (Nat.not_lt_zero _)
  | succ n ih =>
    rw [ByteReader.spaces]
    refine (peek hc).bind ?_
    by_cases hpeek : c.peek? = some ' '
    · obtain ⟨tail, hrest⟩ := List.head?_eq_some_iff.mp hpeek
      have hshorter : (c.skip 1).rest.length < n := by
        rw [hrest, List.length_cons] at hn
        rw [Cursor.rest_skip_one hrest]
        omega
      rw [Cursor.skipSpaces_of_space hrest, if_pos (by simp [hpeek])]
      exact (move_one c hrest).bind (ih (Cursor.valid_skip hc 1) hshorter)
    · rw [Cursor.skipSpaces_of_peek hpeek, if_neg (by simpa using hpeek)]
      exact pure () c

/-- There are no more spaces than characters. -/
theorem skipSpaces (hc : c.Valid) : Reads ByteReader.skipSpaces c c.skipSpaces (.ok ()) :=
  (rest hc).bind (spaces hc (Nat.lt_succ_self _))

/-! ### Words -/

theorem word (hc : c.Valid) : Reads ByteReader.word c c.word.2 (.ok c.word.1) := by
  have hfront := List.takeWhile_prefix (fun ch => !Cursor.isSpace ch) (l := c.rest)
  have htake := List.prefix_iff_eq_take.mp hfront
  have hslice : Text.slice? c.source.toList c.position (c.skip c.word.1.length).position =
      some c.word.1 := by
    obtain ⟨read, hsource, hposition⟩ := hc
    obtain ⟨after, hrest⟩ := hfront
    refine Text.slice?_eq_some_iff.mpr ⟨read, after, ?_, hposition.symm, ?_⟩
    · rw [hsource, ← hrest]
      rfl
    · rw [Cursor.skip, Cursor.word, ← htake]
  have hmove : Reads (ByteReader.move (Text.width c.word.1)) c (c.skip c.word.1.length) (.ok ()) := by
    have h := move c c.word.1.length
    rwa [show c.rest.take c.word.1.length = c.word.1 from htake.symm] at h
  exact (get c).bind <| (rest hc).bind <| hmove.bind <| (get _).bind <| (slice hslice _).bind <|
    (skipSpaces (Cursor.valid_skip hc _)).bind (pure _ _)

theorem incomplete (c : Cursor) : Reads (α := α) ByteReader.incomplete c c (.error c.incomplete) :=
  (get c).bind (throw ⟨_, rfl, String.Pos.Raw.isValid_rawEndPos⟩)

theorem invalidAt {position : Nat} (h : (⟨position⟩ : String.Pos.Raw).IsValid c.source) :
    Reads (α := α) (ByteReader.invalidAt position) c c (.error (c.invalidAt position)) :=
  (get c).bind (throw ⟨_, rfl, h⟩)

theorem invalid (hc : c.Valid) : Reads (α := α) ByteReader.invalid c c (.error c.invalid) :=
  (get c).bind (invalidAt hc.isValid)

theorem expectWord (hc : c.Valid) (h : c.atEnd = false) :
    Reads ByteReader.expectWord c c.word.2 (.ok c.word.1) := by
  refine (atEnd hc).bind ?_
  rw [h]
  exact word hc

theorem expectWord_end (hc : c.Valid) (h : c.atEnd = true) :
    Reads ByteReader.expectWord c c (.error c.incomplete) := by
  refine (atEnd hc).bind ?_
  rw [h]
  exact incomplete c

theorem eatKeyword (hc : c.Valid) {keyword : String} (h : c.eatKeyword keyword = some next) :
    Reads (ByteReader.eatKeyword keyword) c next (.ok true) := by
  simp only [Cursor.eatKeyword] at h
  split at h
  · next hkeyword =>
    cases h
    have hfront := List.prefix_iff_eq_take.mp
      (List.isPrefixOf_iff_prefix.mp (Bool.and_eq_true_iff.mp hkeyword).1)
    have hmove := move c keyword.toList.length
    rw [← hfront, Text.width_toList] at hmove
    refine (rest hc).bind ?_
    rw [if_pos hkeyword]
    exact hmove.bind ((skipSpaces (Cursor.valid_skip hc _)).bind (pure true _))
  · cases h

theorem eatKeyword_other (hc : c.Valid) {keyword : String} (h : c.eatKeyword keyword = none) :
    Reads (ByteReader.eatKeyword keyword) c c (.ok false) := by
  simp only [Cursor.eatKeyword] at h
  split at h
  · cases h
  · next hkeyword =>
    refine (rest hc).bind ?_
    rw [if_neg hkeyword]
    exact pure false c

theorem number (hc : c.Valid) (read : List Char → Option α) :
    Reads (ByteReader.number read) c (c.number read).2 (c.number read).1 := by
  refine (get c).bind ?_
  cases hend : c.atEnd with
  | true =>
    have hnumber : c.number read = (.error c.incomplete, c) := by
      rw [Cursor.number, Cursor.expectWord, if_pos hend]
    rw [hnumber]
    exact (expectWord_end hc hend).bind_error
  | false =>
    have hexpect : c.expectWord = .ok (c.word.1, c.word.2) := by
      rw [Cursor.expectWord, if_neg (by simp [hend])]
    refine (expectWord hc hend).bind ?_
    cases hread : read c.word.1 with
    | some n =>
      simp only [Cursor.number, hexpect, hread]
      exact pure n _
    | none =>
      simp only [Cursor.number, hexpect, hread]
      exact invalidAt hc.isValid

theorem remaining (hc : c.Valid) :
    Reads ByteReader.remaining c c.remaining.2 (.ok c.remaining.1) := by
  have hend : c.source.utf8ByteSize = (c.skip c.rest.length).position := by
    rw [Cursor.skip, List.take_length, hc.width_rest]
  have hmove : Reads (modify fun c => { c with position := c.source.utf8ByteSize }) c
      (c.skip c.rest.length) (.ok ()) := by
    refine of_ok ?_ ⟨_, rfl⟩
    change some (Except.ok (), (⟨c.source, c.source.utf8ByteSize⟩ : ByteCursor)) = _
    rw [hend]
    rfl
  exact (rest hc).bind (hmove.bind (pure _ _))

end Reads

/-! ### Agreement -/

variable {α β : Type}

/-- Reading from `c` ends with a result. -/
def Ends (p : ByteReader α) (c : Cursor) (result : Except CommandError α) : Prop :=
  ∃ next, Reads p c next result

/-- Reading from `c` ends with a result and, unless it is an error, at the cursor found with it. -/
def Keeps (p : ByteReader α) (c : Cursor) : Except CommandError (α × Cursor) → Prop
  | .ok (a, next) => Reads p c next (.ok a)
  | .error e => Ends p c (.error e)

namespace Ends

variable {p : ByteReader α} {f : α → ByteReader β} {c mid : Cursor}

theorem after {a : α} {x : Except CommandError β} (hp : Reads p c mid (.ok a))
    (hf : Ends (f a) mid x) : Ends (p >>= f) c x := by
  obtain ⟨stop, hstop⟩ := hf
  exact ⟨stop, hp.bind hstop⟩

theorem bind {x : Except CommandError α} {g : α → Except CommandError β} (hp : Ends p c x)
    (hf : ∀ a next, x = .ok a → Reads p c next (.ok a) → Ends (f a) next (g a)) :
    Ends (p >>= f) c (x >>= g) := by
  obtain ⟨next, hnext⟩ := hp
  cases x with
  | ok a => exact after hnext (hf a next rfl hnext)
  | error e => exact ⟨next, hnext.bind_error⟩

/-- Both results are turned into the same. -/
theorem map {x : Except CommandError α} {g : α → β} (hp : Ends p c x) :
    Ends (p >>= fun a => Pure.pure (g a)) c (x >>= fun a => Pure.pure (g a)) :=
  hp.bind fun _ next _ _ => ⟨next, .pure _ _⟩

end Ends

namespace Keeps

variable {p : ByteReader α} {f : α → ByteReader β} {c : Cursor} {x : Except CommandError (α × Cursor)}

/-- What comes after a first step ends as what comes after its result. -/
theorem bind {g : α × Cursor → Except CommandError β} (hp : Keeps p c x)
    (hf : ∀ a next, x = .ok (a, next) → Reads p c next (.ok a) → Ends (f a) next (g (a, next))) :
    Ends (p >>= f) c (x >>= g) := by
  cases x with
  | ok read => exact .after hp (hf read.1 read.2 rfl hp)
  | error e =>
    obtain ⟨stop, hstop⟩ := hp
    exact ⟨stop, hstop.bind_error⟩

theorem after {a : α} {mid : Cursor} {x : Except CommandError (β × Cursor)}
    (hp : Reads p c mid (.ok a)) (hf : Keeps (f a) mid x) : Keeps (p >>= f) c x := by
  cases x with
  | ok found => exact Reads.bind hp hf
  | error e => exact Ends.after hp hf

theorem bind_keeps {g : α × Cursor → Except CommandError (β × Cursor)} (hp : Keeps p c x)
    (hf : ∀ a next, x = .ok (a, next) → Reads p c next (.ok a) → Keeps (f a) next (g (a, next))) :
    Keeps (p >>= f) c (x >>= g) := by
  cases x with
  | ok read => exact after hp (hf read.1 read.2 rfl hp)
  | error e =>
    obtain ⟨stop, hstop⟩ := hp
    exact ⟨stop, hstop.bind_error⟩

theorem expectWord (hc : c.Valid) : Keeps ByteReader.expectWord c c.expectWord := by
  rw [Cursor.expectWord]
  split
  · next hend => exact ⟨c, .expectWord_end hc hend⟩
  · next hend => exact Reads.expectWord hc (Bool.eq_false_iff.mpr hend)

theorem expectNumber (hc : c.Valid) (read : List Char → Option α) :
    Keeps (ByteReader.number read) c (c.expectNumber read) := by
  have hnumber := Reads.number hc read
  rw [Cursor.expectNumber]
  split
  · next heq =>
    rw [heq] at hnumber
    exact hnumber
  · next heq =>
    rw [heq] at hnumber
    exact ⟨_, hnumber⟩

end Keeps

end Trampoline
