import Trampoline.Proofs.Command.Stages
import Trampoline.Proofs.Compound.Bytes

/-! Lines at a byte cursor.

Here the grammar of lines is written out for a byte cursor. A command keeps as its text the slice
from where it began to the end of the line; a subcommand keeps the slice between two positions, the
first taken away from the second. As with compounds, the calls are counted. -/
namespace Trampoline

namespace ByteReader
open Command

def expectEnd : ByteReader Unit := do
  if ← atEnd then return () else invalid

def expectId : ByteReader String := do
  return normalizeId (String.ofList (← expectWord))

def counter : ByteReader Verb := do
  let start ← get
  let action ← expectWord
  let name := String.ofList (← expectWord)
  match String.ofList action with
  | "get" =>
    expectEnd
    return .getCounter name
  | "add" =>
    let delta ← number Numeral.readInt32
    expectEnd
    return .addCounter name delta
  | "set" =>
    let value ← number Numeral.readInt32
    expectEnd
    return .setCounter name value
  | _ => invalidAt start.position

def condition (expected : Bool) : ByteReader Condition := do
  if ← eatKeyword "counter" then
    let name ← expectWord
    let least ← number Numeral.readInt32
    return ⟨expected, String.ofList name, least⟩
  else invalid

def call : ByteReader Executor := do
  let id ← expectId
  if ← atEnd then return .function id none
  else
    let arguments ← compound
    skipSpaces
    expectEnd
    return .function id (some arguments)

def trigger : ByteReader Executor := do
  let id ← expectId
  expectEnd
  return .trigger id

def returns : ByteReader Executor := do
  if ← eatKeyword "fail" then
    expectEnd
    return .return none
  else
    let value ← number Numeral.readInt32
    expectEnd
    return .return (some value)

def names : ByteReader (List String) := do
  let w ← expectWord
  let names := ((Text.split ',' w).filter fun name => !name.isEmpty).map String.ofList
  if names.isEmpty then invalid else return names

/-- The text of a subcommand that began at a position, with the line from there on. -/
def subcommand (start : Nat) (line : List Char) : ByteReader String := do
  let stop ← get
  if start ≤ stop.position then
    return String.ofList (Text.trimEnd (← slice line 0 (stop.position - start)))
  else stuck

mutual
def command (privileged : Bool) : Nat → ByteReader (List (Stage standard))
  | 0 => stuck
  | n + 1 => do
    let start ← get
    let input := String.ofList (← rest)
    let runs (e : Executable standard) : List (Stage standard) := [{ input, executable := some e }]
    let w ← expectWord
    match String.ofList w with
    | "say" =>
      let text ← remaining
      if text.isEmpty then incomplete else return runs (.command (.say text))
    | "counter" => return runs (.command (← counter))
    | "fail" => return runs (.command (.fail (← remaining)))
    | "execute" => if privileged then execute privileged n else incomplete
    | "return" =>
      if ← eatKeyword "run" then
        let tail ← command privileged n
        return { input, redirect := some (.custom .returnRun) } :: tail
      else return runs (.custom (← returns))
    | "function" => if privileged then return runs (.custom (← call)) else incomplete
    | "trigger" => if privileged then return runs (.custom (← trigger)) else incomplete
    | _ => invalidAt start.position

/-- After `execute`. -/
def execute (privileged : Bool) : Nat → ByteReader (List (Stage standard))
  | 0 => stuck
  | n + 1 => do
    let start ← get
    let line ← rest
    let w ← expectWord
    match String.ofList w with
    | "run" => command privileged n
    | "as" =>
      let names ← names
      let input ← subcommand start.position line
      let tail ← execute privileged n
      return { input, redirect := some (.modifier (.rename names)), forks := true } :: tail
    | "silent" =>
      let input ← subcommand start.position line
      let tail ← execute privileged n
      return { input, redirect := some (.modifier .silence) } :: tail
    | "if" => conditional privileged n start.position line (← condition true)
    | "unless" => conditional privileged n start.position line (← condition false)
    | _ => invalidAt start.position

def conditional (privileged : Bool) : Nat → Nat → List Char → Condition →
    ByteReader (List (Stage standard))
  | 0, _, _, _ => stuck
  | n + 1, start, line, condition => do
    let input ← subcommand start line
    if ← atEnd then return [{ input, executable := some (.command (.test condition)) }]
    else
      let tail ← execute privileged n
      return { input, redirect := some (.modifier (.filter condition)) } :: tail
end

/-- A command, with calls enough for the rest of the text. -/
def line (privileged : Bool) : ByteReader (List (Stage standard)) := do
  command privileged (2 * (← rest).length + 2)

end ByteReader

namespace Command

variable {c : Cursor}

/-! ### After the first word -/

theorem ends_expectEnd (hc : c.Valid) : Ends ByteReader.expectEnd c (expectEnd c) := by
  have hend := Reads.atEnd hc
  rw [expectEnd]
  cases h : c.atEnd with
  | true =>
    rw [h] at hend
    exact ⟨c, hend.bind (.pure () c)⟩
  | false =>
    rw [h] at hend
    exact ⟨c, hend.bind (.invalid hc)⟩

theorem keeps_expectId (hc : c.Valid) : Keeps ByteReader.expectId c (expectId c) :=
  (Keeps.expectWord hc).bind_keeps fun _ _ _ _ => .pure _ _

/-- A word that is not known is refused where the command starts, however far the reader went. -/
theorem ends_invalidAt {α : Type} {next : Cursor} (hc : c.Valid) (h : ∃ n, next = c.skip n) :
    Ends (α := α) (ByteReader.invalidAt c.bytes.position) next (.error c.invalid) := by
  obtain ⟨n, rfl⟩ := h
  exact ⟨_, .invalidAt hc.isValid⟩

theorem ends_counter (hc : c.Valid) : Ends ByteReader.counter c (readCounter c) := by
  refine .after (.get c) ((Keeps.expectWord hc).bind fun action c₁ _ h₁ => ?_)
  have hc₁ := h₁.valid hc
  refine (Keeps.expectWord hc₁).bind fun name c₂ _ h₂ => ?_
  have hc₂ := h₂.valid hc₁
  dsimp only
  generalize String.ofList action = action
  split
  · exact (ends_expectEnd hc₂).map
  · refine (Keeps.expectNumber hc₂ _).bind fun delta c₃ _ h₃ => ?_
    exact (ends_expectEnd (h₃.valid hc₂)).map
  · refine (Keeps.expectNumber hc₂ _).bind fun delta c₃ _ h₃ => ?_
    exact (ends_expectEnd (h₃.valid hc₂)).map
  · next hget hadd hset =>
    simpa only [hget, hadd, hset] using ends_invalidAt hc (h₁.trans_ahead h₂)

theorem keeps_condition (expected : Bool) (hc : c.Valid) :
    Keeps (ByteReader.condition expected) c (readCondition expected c) := by
  rw [readCondition]
  cases hkeyword : c.eatKeyword "counter" with
  | none => exact Keeps.after (.eatKeyword_other hc hkeyword) ⟨c, .invalid hc⟩
  | some c₁ =>
    have h₁ := Reads.eatKeyword hc hkeyword
    have hc₁ := h₁.valid hc
    refine .after h₁ ((Keeps.expectWord hc₁).bind_keeps fun name c₂ _ h₂ => ?_)
    exact (Keeps.expectNumber (h₂.valid hc₁) _).bind_keeps fun least c₃ _ _ => .pure _ _

theorem ends_call (hc : c.Valid) : Ends ByteReader.call c (readCall c) := by
  refine (keeps_expectId hc).bind fun id c₁ _ h₁ => ?_
  have hc₁ := h₁.valid hc
  refine .after (.atEnd hc₁) ?_
  dsimp only
  split
  · exact ⟨c₁, .pure _ _⟩
  · refine (Keeps.compound hc₁).bind fun arguments c₂ _ h₂ => ?_
    have hc₂ := h₂.valid hc₁
    refine .after (.skipSpaces hc₂) ?_
    exact (ends_expectEnd (Cursor.valid_skipSpaces hc₂)).map

theorem ends_trigger (hc : c.Valid) : Ends ByteReader.trigger c (readTrigger c) := by
  refine (keeps_expectId hc).bind fun id c₁ _ h₁ => ?_
  exact (ends_expectEnd (h₁.valid hc)).map

theorem ends_returns (hc : c.Valid) : Ends ByteReader.returns c (readReturn c) := by
  rw [readReturn]
  cases hkeyword : c.eatKeyword "fail" with
  | some c₁ =>
    have h₁ := Reads.eatKeyword hc hkeyword
    refine .after h₁ ?_
    exact (ends_expectEnd (h₁.valid hc)).map
  | none =>
    refine .after (.eatKeyword_other hc hkeyword) ?_
    refine (Keeps.expectNumber hc _).bind fun value c₁ _ h₁ => ?_
    exact (ends_expectEnd (h₁.valid hc)).map

theorem keeps_names (hc : c.Valid) : Keeps ByteReader.names c (readNames c) := by
  refine (Keeps.expectWord hc).bind_keeps fun w c₁ _ h₁ => ?_
  dsimp only
  split
  · exact ⟨c₁, .invalid (h₁.valid hc)⟩
  · exact .pure _ _

/-- The text of a subcommand is a slice of its line. -/
theorem reads_subcommand (start : Cursor) (n : Nat) :
    Reads (ByteReader.subcommand start.position start.rest) (start.skip n) (start.skip n)
      (.ok (subcommandText start (start.skip n))) := by
  have hslice := Text.slice?_take start.rest n
  have hbytes : (start.skip n).position - start.position = Text.width (start.rest.take n) :=
    Nat.add_sub_cancel_left ..
  rw [← hbytes] at hslice
  have hle : start.position ≤ (start.skip n).bytes.position := Nat.le_add_right ..
  refine (Reads.get _).bind ?_
  rw [if_pos hle, subcommandText, Cursor.upTo_skip]
  exact (Reads.slice hslice _).bind (.pure _ _)

/-! ### The grammar -/

/-- With enough calls for the characters, the two readers of lines come to the same ends. A
condition was read already when the last function goes on. -/
structure Paced (privileged : Bool) (n : Nat) : Prop where
  command {c : Cursor} (hc : c.Valid) (hn : 2 * c.rest.length + 2 ≤ n) :
    Ends (ByteReader.command privileged n) c (readCommand privileged n c)
  execute {c : Cursor} (hc : c.Valid) (hn : 2 * c.rest.length + 2 ≤ n) :
    Ends (ByteReader.execute privileged n) c (readExecute privileged n c)
  conditional {start c : Cursor} (condition : Condition) (hc : c.Valid) (hahead : ∃ k, c = start.skip k)
    (hn : 2 * c.rest.length + 3 ≤ n) :
    Ends (ByteReader.conditional privileged n start.position start.rest condition) c
      (readConditional privileged n start (condition, c))

variable {privileged : Bool} {n : Nat}

theorem Paced.command_succ (ih : Paced privileged n) (hc : c.Valid)
    (hn : 2 * c.rest.length + 2 ≤ n + 1) :
    Ends (ByteReader.command privileged (n + 1)) c (readCommand privileged (n + 1) c) := by
  rw [ByteReader.command, readCommand]
  refine .after (.get c) (.after (.rest hc) ?_)
  refine (Keeps.expectWord hc).bind fun w c₁ hw h₁ => ?_
  have hc₁ := h₁.valid hc
  have hlength := Cursor.length_expectWord hw
  dsimp only
  generalize String.ofList w = name
  split
  · -- say
    refine .after (.remaining hc₁) ?_
    have hempty : c₁.remaining.1.isEmpty = c₁.atEnd := by
      rw [Cursor.remaining, Cursor.restText, Cursor.atEnd, Bool.eq_iff_iff, String.isEmpty_iff,
        String.ofList_eq_empty_iff, List.isEmpty_iff]
    rw [hempty]
    cases c₁.atEnd with
    | true => exact ⟨_, .incomplete _⟩
    | false => exact ⟨_, .pure _ _⟩
  · -- counter
    exact (ends_counter hc₁).map
  · -- fail
    exact .after (.remaining hc₁) ⟨_, .pure _ _⟩
  · -- execute
    cases privileged with
    | true => exact ih.execute hc₁ (by omega)
    | false => exact ⟨c₁, .incomplete c₁⟩
  · -- return
    cases hkeyword : c₁.eatKeyword "run" with
    | some c₂ =>
      have h₂ := Reads.eatKeyword hc₁ hkeyword
      have hshorter := Cursor.length_eatKeyword_le hkeyword
      refine .after h₂ ?_
      exact (ih.command (h₂.valid hc₁) (by omega)).map
    | none =>
      refine .after (.eatKeyword_other hc₁ hkeyword) ?_
      exact (ends_returns hc₁).map
  · -- function
    cases privileged with
    | true => exact (ends_call hc₁).map
    | false => exact ⟨c₁, .incomplete c₁⟩
  · -- trigger
    cases privileged with
    | true => exact (ends_trigger hc₁).map
    | false => exact ⟨c₁, .incomplete c₁⟩
  · next hsay hcounter hfail hexecute hreturn hfunction htrigger =>
    simpa only [hsay, hcounter, hfail, hexecute, hreturn, hfunction, htrigger] using
      ends_invalidAt hc h₁.ahead

theorem Paced.execute_succ (ih : Paced privileged n) (hc : c.Valid)
    (hn : 2 * c.rest.length + 2 ≤ n + 1) :
    Ends (ByteReader.execute privileged (n + 1)) c (readExecute privileged (n + 1) c) := by
  rw [ByteReader.execute, readExecute]
  refine .after (.get c) (.after (.rest hc) ?_)
  refine (Keeps.expectWord hc).bind fun w c₁ hw h₁ => ?_
  have hc₁ := h₁.valid hc
  have hlength := Cursor.length_expectWord hw
  dsimp only
  generalize String.ofList w = name
  split
  · -- run
    exact ih.command hc₁ (by omega)
  · -- as
    refine (keeps_names hc₁).bind fun names c₂ hnames h₂ => ?_
    have hshorter := length_readNames hnames
    have hc₂ := h₂.valid hc₁
    obtain ⟨k, rfl⟩ := h₁.trans_ahead h₂
    refine .after (reads_subcommand c k) ?_
    exact (ih.execute hc₂ (by omega)).map
  · -- silent
    obtain ⟨k, rfl⟩ := h₁.ahead
    refine .after (reads_subcommand c k) ?_
    exact (ih.execute hc₁ (by omega)).map
  · -- if
    refine (keeps_condition true hc₁).bind fun condition c₂ hcondition h₂ => ?_
    have hshorter := length_readCondition hcondition
    exact ih.conditional condition (h₂.valid hc₁) (h₁.trans_ahead h₂) (by omega)
  · -- unless
    refine (keeps_condition false hc₁).bind fun condition c₂ hcondition h₂ => ?_
    have hshorter := length_readCondition hcondition
    exact ih.conditional condition (h₂.valid hc₁) (h₁.trans_ahead h₂) (by omega)
  · next hrun has hsilent hif hunless =>
    simpa only [hrun, has, hsilent, hif, hunless] using ends_invalidAt hc h₁.ahead

theorem Paced.conditional_succ (ih : Paced privileged n) {start : Cursor} (condition : Condition)
    (hc : c.Valid) (hahead : ∃ k, c = start.skip k) (hn : 2 * c.rest.length + 3 ≤ n + 1) :
    Ends (ByteReader.conditional privileged (n + 1) start.position start.rest condition) c
      (readConditional privileged (n + 1) start (condition, c)) := by
  obtain ⟨k, rfl⟩ := hahead
  rw [ByteReader.conditional, readConditional]
  refine .after (reads_subcommand start k) (.after (.atEnd hc) ?_)
  cases (start.skip k).atEnd with
  | true => exact ⟨_, .pure _ _⟩
  | false => exact (ih.execute hc (by omega)).map

theorem paced (privileged : Bool) (n : Nat) : Paced privileged n := by
  induction n with
  | zero => exact ⟨fun _ hn => absurd hn (by omega), fun _ hn => absurd hn (by omega),
      fun _ _ _ hn => absurd hn (by omega)⟩
  | succ n ih => exact ⟨ih.command_succ, ih.execute_succ, ih.conditional_succ⟩

/-- A line ends on every text, with what its characters are read as. -/
theorem ends_line (privileged : Bool) (hc : c.Valid) :
    Ends (ByteReader.line privileged) c (readCommand privileged (fuelFor c) c) :=
  .after (.rest hc) ((paced privileged _).command hc (Nat.le_refl _))

end Command

end Trampoline
