import Trampoline.Proofs.Command.Slices

/-! A cursor is always valid.

An `Operation` is one of the things that can be asked of a cursor, from one character to a whole
command. Operations follow each other whatever they answer, an error included. From any text on, a
byte cursor never asks for a slice there is none of: it goes where the cursor with the characters
goes, forwards and from one place between two characters to another, and so do the places of the
errors (`operations_stay_valid`). -/
namespace Trampoline
open Command

/-- What can be asked of a cursor, and the type of the answer. -/
inductive Operation : Type → Type 1 where
  | advance : Operation (Option Char)
  | eat (ch : Char) : Operation Bool
  | skipSpaces : Operation Unit
  | word : Operation (List Char)
  | expectWord : Operation (List Char)
  | eatKeyword (keyword : String) : Operation Bool
  | number {α : Type} (read : List Char → Option α) : Operation α
  | remaining : Operation String
  | compound : Operation Record
  | command (privileged : Bool) : Operation (List (Stage standard))

namespace Operation

variable {α : Type}

/-- The operation on a byte cursor. -/
def reading : Operation α → ByteReader α
  | advance => ByteReader.advance
  | eat ch => ByteReader.eat ch
  | skipSpaces => ByteReader.skipSpaces
  | word => ByteReader.word
  | expectWord => ByteReader.expectWord
  | eatKeyword keyword => ByteReader.eatKeyword keyword
  | number read => ByteReader.number read
  | remaining => ByteReader.remaining
  | compound => ByteReader.compound
  | command privileged => ByteReader.line privileged

/-- The answer at a cursor. -/
def answer : Operation α → Cursor → Except CommandError α
  | advance, c => .ok (c.advance.map Prod.fst)
  | eat ch, c => .ok (c.eat ch).isSome
  | skipSpaces, _ => .ok ()
  | word, c => .ok c.word.1
  | expectWord, c => c.expectWord.map Prod.fst
  | eatKeyword keyword, c => .ok (c.eatKeyword keyword).isSome
  | number read, c => (c.number read).1
  | remaining, c => .ok c.remaining.1
  | compound, c => c.compound.map Prod.fst
  | command privileged, c => readCommand privileged (fuelFor c) c

/-- The cursor that the operation hands on, if it does. -/
def next? : Operation α → Cursor → Option Cursor
  | advance, c => c.advance.map Prod.snd
  | eat ch, c => c.eat ch
  | skipSpaces, c => some c.skipSpaces
  | word, c => some c.word.2
  | expectWord, c => c.expectWord.toOption.map Prod.snd
  | eatKeyword keyword, c => c.eatKeyword keyword
  | number read, c => some (c.number read).2
  | remaining, c => some c.remaining.2
  | compound, c => c.compound.toOption.map Prod.snd
  | command _, _ => none

/-- One operation after the other, whatever they answer. -/
def run : List (Σ α, Operation α) → ByteCursor → Option ByteCursor
  | [], c => some c
  | op :: ops, c => do
    let (_, c) ← op.2.reading c
    run ops c

/-- The operation on a byte cursor does what it does on a cursor. -/
def Agrees (op : Operation α) (c : Cursor) : Prop :=
  ∃ next, Reads op.reading c next (op.answer c) ∧ ∀ stop, op.next? c = some stop → stop = next

theorem agrees_of_keeps {op : Operation α} {c : Cursor} {x : Except CommandError (α × Cursor)}
    (h : Keeps op.reading c x) (hanswer : op.answer c = x.map Prod.fst)
    (hnext : op.next? c = x.toOption.map Prod.snd) : op.Agrees c := by
  cases x with
  | ok read =>
    refine ⟨read.2, hanswer ▸ h, fun stop hstop => ?_⟩
    rw [hnext] at hstop
    exact (Option.some.inj hstop).symm
  | error e =>
    obtain ⟨next, hreads⟩ := h
    refine ⟨next, hanswer ▸ hreads, fun stop hstop => ?_⟩
    rw [hnext] at hstop
    cases hstop

theorem agrees_advance {c : Cursor} (hc : c.Valid) : advance.Agrees c := by
  refine ⟨c.skip 1, ?_, fun stop hstop => ?_⟩
  · have hanswer : c.advance.map Prod.fst = c.peek? := by
      rw [Cursor.advance, Cursor.peek?]
      cases c.rest <;> rfl
    rw [answer, hanswer]
    exact .advance hc
  · rw [next?, Cursor.advance] at hstop
    cases hrest : c.rest with
    | nil =>
      rw [hrest] at hstop
      cases hstop
    | cons ch tail =>
      rw [hrest] at hstop
      exact (Option.some.inj hstop).symm

theorem agrees_eat {c : Cursor} (hc : c.Valid) (ch : Char) : (eat ch).Agrees c := by
  by_cases hpeek : c.peek? = some ch
  · obtain ⟨tail, hrest⟩ := List.head?_eq_some_iff.mp hpeek
    have heat : c.eat ch = some (c.skip 1) := if_pos (beq_iff_eq.mpr hpeek)
    refine ⟨c.skip 1, ?_, fun stop hstop => (Option.some.inj (heat.symm.trans hstop)).symm⟩
    rw [answer, heat]
    exact .eat hc hrest
  · have heat : c.eat ch = none := if_neg fun h => hpeek (beq_iff_eq.mp h)
    refine ⟨c, ?_, fun stop hstop => nomatch heat.symm.trans hstop⟩
    rw [answer, heat]
    exact .eat_other hc hpeek

theorem agrees_eatKeyword {c : Cursor} (hc : c.Valid) (keyword : String) :
    (eatKeyword keyword).Agrees c := by
  cases heat : c.eatKeyword keyword with
  | some next =>
    refine ⟨next, ?_, fun stop hstop => (Option.some.inj (heat.symm.trans hstop)).symm⟩
    rw [answer, heat]
    exact .eatKeyword hc heat
  | none =>
    refine ⟨c, ?_, fun stop hstop => nomatch heat.symm.trans hstop⟩
    rw [answer, heat]
    exact .eatKeyword_other hc heat

theorem agrees {c : Cursor} (hc : c.Valid) (op : Operation α) : op.Agrees c := by
  cases op with
  | advance => exact agrees_advance hc
  | eat ch => exact agrees_eat hc ch
  | skipSpaces => exact ⟨_, .skipSpaces hc, fun _ h => (Option.some.inj h).symm⟩
  | word => exact ⟨_, .word hc, fun _ h => (Option.some.inj h).symm⟩
  | expectWord => exact agrees_of_keeps (.expectWord hc) rfl rfl
  | eatKeyword keyword => exact agrees_eatKeyword hc keyword
  | number read => exact ⟨_, .number hc read, fun _ h => (Option.some.inj h).symm⟩
  | remaining => exact ⟨_, .remaining hc, fun _ h => (Option.some.inj h).symm⟩
  | compound => exact agrees_of_keeps (.compound hc) rfl rfl
  | command privileged =>
    obtain ⟨next, hnext⟩ := ends_line privileged hc
    exact ⟨next, hnext, fun _ h => nomatch h⟩

/-- A sequence of operations ends further on in the same text. -/
theorem exists_run (ops : List (Σ α, Operation α)) {c : Cursor} (hc : c.Valid) :
    ∃ n, run ops c.bytes = some (c.skip n).bytes := by
  induction ops generalizing c with
  | nil => exact ⟨0, rfl⟩
  | cons op ops ih =>
    obtain ⟨next, hreads, -⟩ := agrees hc op.2
    obtain ⟨n, rfl⟩ := hreads.ahead
    obtain ⟨m, hrun⟩ := ih (Cursor.valid_skip hc n)
    refine ⟨n + m, ?_⟩
    rw [run, hreads.run, ← Cursor.skip_skip]
    exact hrun

end Operation

/-- The cursor is between two characters of the text: what it has read and the rest make up the
text, and the rest is the slice from its position to the end. -/
structure Cursor.StandsIn (c : Cursor) (source : String) : Prop where
  source_eq : c.source = source
  position_le : c.position ≤ source.utf8ByteSize
  isValid : (⟨c.position⟩ : String.Pos.Raw).IsValid source
  splits : ∃ read, source.toList = read ++ c.rest ∧ Text.width read = c.position
  rest_eq : ByteReader.rest c.bytes = some (.ok c.rest, c.bytes)

theorem Cursor.Valid.standsIn {c : Cursor} (hc : c.Valid) : c.StandsIn c.source where
  source_eq := rfl
  position_le := hc.isValid.le_rawEndPos
  isValid := hc.isValid
  splits := by
    obtain ⟨read, hsource, hposition⟩ := hc
    exact ⟨read, hsource, hposition.symm⟩
  rest_eq := (Reads.rest hc).run

/-- On the byte cursor the operation has a result, and does not go back; it answers what it answers
on the cursor, and stops where that stops. An error points into the text. -/
structure Operation.Proceeds {α : Type} (op : Operation α) (c next : Cursor) : Prop where
  run : op.reading c.bytes = some (op.answer c, next.bytes)
  forward : c.position ≤ next.position
  lands : ∀ stop, op.next? c = some stop → stop = next
  points : ∀ e, op.answer c = .error e → e.PointsInto c.source

theorem Operation.exists_proceeds {α : Type} (op : Operation α) {c : Cursor} (hc : c.Valid) :
    ∃ next, op.Proceeds c next := by
  obtain ⟨next, hreads, hlands⟩ := agrees hc op
  obtain ⟨n, rfl⟩ := hreads.ahead
  exact ⟨_, hreads.run, Nat.le_add_right .., hlands, hreads.points⟩

/-- **A cursor is always valid.** Whatever operations came first, and whether they succeeded, the
byte cursor has come to a place between two characters, with the rest of the text behind it, and
every operation goes on from there. A whole line is one of them, at the beginning of its text: it is
resolved, and an error points into it. -/
theorem operations_stay_valid (source : String) (ops : List (Σ α, Operation α)) :
    (∃ c : Cursor, Operation.run ops ⟨source, 0⟩ = some c.bytes ∧ c.StandsIn source ∧
      ∀ (α : Type) (op : Operation α), ∃ next, op.Proceeds c next) ∧
    ∀ permission, ∃ stop, ByteReader.line (privilegedLevel ≤ permission) ⟨source, 0⟩ =
        some (resolve permission source, stop) ∧
      ∀ e, resolve permission source = .error e → e.PointsInto source := by
  have hstart := Cursor.valid_ofText source
  refine ⟨?_, fun permission => ?_⟩
  · obtain ⟨n, hrun⟩ := Operation.exists_run ops hstart
    have hc := Cursor.valid_skip hstart n
    exact ⟨_, hrun, hc.standsIn, fun _ op => op.exists_proceeds hc⟩
  · obtain ⟨next, hline⟩ :=
      Operation.exists_proceeds (.command (privilegedLevel ≤ permission)) hstart
    exact ⟨next.bytes, hline.run, hline.points⟩

end Trampoline
