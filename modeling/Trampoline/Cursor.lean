import Trampoline.CommandError

/-! A cursor over the text of a command.

A cursor holds the whole text, the byte position it has reached and the
characters from there on. Words are separated by plain spaces; reading a word or
a keyword also passes over the spaces after it. Every error made by a cursor
points into its text.

`Valid` ties the three fields together: what was read, followed by the rest, is
the text, and the position is the width of what was read. The operations keep it
(`valid_ofText`, `valid_skip`). -/
namespace Trampoline

structure Cursor where
  source : String
  position : Nat
  rest : List Char

namespace Cursor

def ofText (source : String) : Cursor := ⟨source, 0, source.toList⟩

def atEnd (c : Cursor) : Bool := c.rest.isEmpty

def restText (c : Cursor) : String := String.ofList c.rest

/-- Moves past the first `n` characters of the rest. -/
def skip (c : Cursor) (n : Nat) : Cursor :=
  ⟨c.source, c.position + Text.width (c.rest.take n), c.rest.drop n⟩

def peek? (c : Cursor) : Option Char := c.rest.head?

def advance (c : Cursor) : Option (Char × Cursor) :=
  match c.rest with
  | [] => none
  | ch :: _ => some (ch, c.skip 1)

/-- Moves past one given character, if it comes next. -/
def eat (c : Cursor) (ch : Char) : Option Cursor :=
  if c.peek? == some ch then some (c.skip 1) else none

def isSpace (ch : Char) : Bool := ch == ' '

def skipSpaces (c : Cursor) : Cursor := c.skip (c.rest.takeWhile isSpace).length

/-- The characters up to the next space; they may be none. -/
def word (c : Cursor) : List Char × Cursor :=
  let w := c.rest.takeWhile fun ch => !isSpace ch
  (w, (c.skip w.length).skipSpaces)

/-! ### Errors -/

/-- The text ends where more was needed. -/
def incomplete (c : Cursor) : CommandError := .unknownCommand c.source

def invalidAt (c : Cursor) (position : Nat) : CommandError := .unknownArgument c.source position

def invalid (c : Cursor) : CommandError := c.invalidAt c.position

/-! ### Reading -/

def expectWord (c : Cursor) : Except CommandError (List Char × Cursor) :=
  if c.atEnd then .error c.incomplete else .ok c.word

/-- Moves past `keyword` if it stands next as a whole word. -/
def eatKeyword (c : Cursor) (keyword : String) : Option Cursor :=
  let k := keyword.toList
  if k.isPrefixOf c.rest && ((c.rest.drop k.length).head?.all isSpace) then
    some (c.skip k.length).skipSpaces
  else none

/-- The next word as a number. The cursor moves past the word even when it is none. -/
def number (c : Cursor) (read : List Char → Option α) : Except CommandError α × Cursor :=
  match c.expectWord with
  | .error e => (.error e, c)
  | .ok (w, next) =>
    match read w with
    | some n => (.ok n, next)
    | none => (.error (c.invalidAt c.position), next)

def expectNumber (c : Cursor) (read : List Char → Option α) : Except CommandError (α × Cursor) :=
  match c.number read with
  | (.ok n, next) => .ok (n, next)
  | (.error e, _) => .error e

def remaining (c : Cursor) : String × Cursor := (c.restText, c.skip c.rest.length)

/-- The text between two positions of one cursor, the second further on. -/
def upTo (start stop : Cursor) : List Char :=
  (Text.cut (stop.position - start.position) start.rest).1

/-! ### What stays true -/

/-- The text is what was read followed by the rest, and the position counts what was read. -/
def Valid (c : Cursor) : Prop :=
  ∃ read, c.source.toList = read ++ c.rest ∧ c.position = Text.width read

theorem valid_ofText (source : String) : (ofText source).Valid := ⟨[], rfl, rfl⟩

theorem valid_skip {c : Cursor} (h : c.Valid) (n : Nat) : (c.skip n).Valid := by
  obtain ⟨read, hs, hp⟩ := h
  refine ⟨read ++ c.rest.take n, ?_, ?_⟩
  · simp only [skip, List.append_assoc, List.take_append_drop, hs]
  · simp only [skip, Text.width_append, hp]

theorem valid_skipSpaces {c : Cursor} (h : c.Valid) : c.skipSpaces.Valid := valid_skip h _

end Cursor

end Trampoline
