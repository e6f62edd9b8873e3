import Trampoline.Proofs.Command.Stages

/-! What stands before a command.

`Cursor.behind pre` is a cursor of the same rest in a text with `pre` in front. It reads what the
cursor itself reads: the results are the same and errors have moved on with the text (`moved`).
A stage keeps the rest of a line or the text between two cursors, and neither knows where the line
began, so what the grammar finds is the same too (`shifts`). -/
namespace Trampoline

/-- The error in a text with `pre` in front. -/
def CommandError.behind (pre : String) (e : CommandError) : CommandError :=
  { e with place := e.place.map fun p => ⟨pre ++ p.input, pre.utf8ByteSize + p.cursor⟩ }

/-- The cursor in a text with `pre` in front. -/
def Cursor.behind (pre : String) (c : Cursor) : Cursor :=
  ⟨pre ++ c.source, pre.utf8ByteSize + c.position, c.rest⟩

/-- A reader's result in a text with `pre` in front; `move` says what becomes of what was read. -/
def moved {α : Type} (pre : String) (move : α → α) : Except CommandError α → Except CommandError α
  | .error e => .error (e.behind pre)
  | .ok a => .ok (move a)

variable {pre : String} {α β : Type}

/-- What is read after something that has moved has moved, if the cursor it starts from has. -/
theorem moved_bind {move : α → α} {move' : β → β} {f g : α → Except CommandError β}
    (x : Except CommandError α) (h : ∀ a, g (move a) = moved pre move' (f a)) :
    moved pre move x >>= g = moved pre move' (x >>= f) := by
  cases x with
  | error e => rfl
  | ok a => exact h a

namespace Cursor

variable (c : Cursor)

/-- What was read, and the cursor after it. -/
def pairBehind (pre : String) (read : α × Cursor) : α × Cursor := (read.1, read.2.behind pre)

@[simp] theorem behind_rest (pre : String) (c : Cursor) : (c.behind pre).rest = c.rest := rfl

theorem skip_behind (n : Nat) : (c.behind pre).skip n = (c.skip n).behind pre := by
  simp only [skip, behind, Nat.add_assoc]

theorem skipSpaces_behind : (c.behind pre).skipSpaces = c.skipSpaces.behind pre := skip_behind c _

theorem word_behind : (c.behind pre).word = pairBehind pre c.word := by
  simp only [word, pairBehind, skip_behind, skipSpaces_behind]
  rfl

theorem incomplete_behind : (c.behind pre).incomplete = c.incomplete.behind pre := by
  simp [incomplete, CommandError.unknownCommand, CommandError.behind, behind, String.utf8ByteSize_append]

theorem expectWord_behind : (c.behind pre).expectWord = moved pre (pairBehind pre) c.expectWord := by
  unfold expectWord
  rw [word_behind, incomplete_behind]
  change (if c.atEnd = true then _ else _) = _
  split <;> rfl

theorem eatKeyword_behind (keyword : String) :
    (c.behind pre).eatKeyword keyword = (c.eatKeyword keyword).map (behind pre) := by
  simp only [eatKeyword, skip_behind, skipSpaces_behind, behind_rest]
  split <;> rfl

theorem expectNumber_behind (read : List Char → Option α) :
    (c.behind pre).expectNumber read = moved pre (pairBehind pre) (c.expectNumber read) := by
  unfold expectNumber number
  rw [expectWord_behind]
  cases c.expectWord with
  | error e => rfl
  | ok result =>
    simp only [moved, pairBehind]
    cases read result.1 <;> rfl

theorem moveTo_behind (rest : List Char) : (c.behind pre).moveTo rest = (c.moveTo rest).behind pre := by
  simp only [moveTo, behind, Nat.add_assoc]

theorem compound_behind : (c.behind pre).compound = moved pre (pairBehind pre) c.compound := by
  unfold compound
  simp only [moveTo_behind, behind_rest]
  cases Compound.read c.rest <;> rfl

/-- The text between two cursors is the same text. -/
theorem upTo_behind (start stop : Cursor) :
    (start.behind pre).upTo (stop.behind pre) = start.upTo stop := by
  simp only [upTo, behind, Nat.add_sub_add_left]

end Cursor

namespace Command
open Cursor (pairBehind)

/-- The same of a reader that says how far it has got. -/
theorem moved_bind_pair {move' : β → β} {f g : α × Cursor → Except CommandError β}
    (x : Except CommandError (α × Cursor))
    (h : ∀ a next, g (a, next.behind pre) = moved pre move' (f (a, next))) :
    moved pre (pairBehind pre) x >>= g = moved pre move' (x >>= f) :=
  moved_bind x fun read => h read.1 read.2

variable (c : Cursor)

theorem expectEnd_behind : expectEnd (c.behind pre) = moved pre id (expectEnd c) := by
  unfold expectEnd
  change (if c.atEnd = true then _ else _) = _
  split <;> rfl

theorem expectId_behind : expectId (c.behind pre) = moved pre (pairBehind pre) (expectId c) := by
  unfold expectId
  rw [Cursor.expectWord_behind]
  exact moved_bind _ fun _ => rfl

theorem readCounter_behind : readCounter (c.behind pre) = moved pre id (readCounter c) := by
  unfold readCounter
  rw [Cursor.expectWord_behind]
  refine moved_bind_pair _ fun action c₁ => ?_
  dsimp only
  rw [Cursor.expectWord_behind]
  refine moved_bind_pair _ fun name c₂ => ?_
  dsimp only
  split
  · rw [expectEnd_behind]
    exact moved_bind _ fun _ => rfl
  · rw [Cursor.expectNumber_behind]
    refine moved_bind_pair _ fun delta c₃ => ?_
    dsimp only
    rw [expectEnd_behind]
    exact moved_bind _ fun _ => rfl
  · rw [Cursor.expectNumber_behind]
    refine moved_bind_pair _ fun delta c₃ => ?_
    dsimp only
    rw [expectEnd_behind]
    exact moved_bind _ fun _ => rfl
  · rfl

theorem readCondition_behind (expected : Bool) :
    readCondition expected (c.behind pre) = moved pre (pairBehind pre) (readCondition expected c) := by
  unfold readCondition
  rw [Cursor.eatKeyword_behind]
  cases c.eatKeyword "counter" with
  | none => rfl
  | some c₁ =>
    dsimp only [Option.map]
    rw [Cursor.expectWord_behind]
    refine moved_bind_pair _ fun name c₂ => ?_
    dsimp only
    rw [Cursor.expectNumber_behind]
    exact moved_bind _ fun _ => rfl

theorem readCall_behind : readCall (c.behind pre) = moved pre id (readCall c) := by
  unfold readCall
  rw [expectId_behind]
  refine moved_bind_pair _ fun id c₁ => ?_
  dsimp only
  change (if c₁.atEnd = true then _ else _) = _
  split
  · rfl
  · rw [Cursor.compound_behind]
    refine moved_bind_pair _ fun arguments c₂ => ?_
    dsimp only
    rw [Cursor.skipSpaces_behind, expectEnd_behind]
    exact moved_bind _ fun _ => rfl

theorem readTrigger_behind : readTrigger (c.behind pre) = moved pre id (readTrigger c) := by
  unfold readTrigger
  rw [expectId_behind]
  refine moved_bind_pair _ fun id c₁ => ?_
  dsimp only
  rw [expectEnd_behind]
  exact moved_bind _ fun _ => rfl

theorem readReturn_behind : readReturn (c.behind pre) = moved pre id (readReturn c) := by
  unfold readReturn
  rw [Cursor.eatKeyword_behind]
  cases c.eatKeyword "fail" with
  | some c₁ =>
    dsimp only [Option.map]
    rw [expectEnd_behind]
    exact moved_bind _ fun _ => rfl
  | none =>
    dsimp only [Option.map]
    rw [Cursor.expectNumber_behind]
    refine moved_bind_pair _ fun value c₁ => ?_
    dsimp only
    rw [expectEnd_behind]
    exact moved_bind _ fun _ => rfl

theorem readNames_behind : readNames (c.behind pre) = moved pre (pairBehind pre) (readNames c) := by
  unfold readNames
  rw [Cursor.expectWord_behind]
  refine moved_bind_pair _ fun w c₁ => ?_
  dsimp only
  split <;> rfl

theorem subcommandText_behind (start stop : Cursor) :
    subcommandText (start.behind pre) (stop.behind pre) = subcommandText start stop := by
  rw [subcommandText, Cursor.upTo_behind, subcommandText]

/-! ### The grammar -/

/-- With `n` calls left, the functions of the grammar find the same stages behind any text. -/
structure Shifts (pre : String) (privileged : Bool) (n : Nat) : Prop where
  command : ∀ c, readCommand privileged n (c.behind pre) = moved pre id (readCommand privileged n c)
  execute : ∀ c, readExecute privileged n (c.behind pre) = moved pre id (readExecute privileged n c)
  conditional : ∀ start condition c,
    readConditional privileged n (start.behind pre) (condition, c.behind pre) =
      moved pre id (readConditional privileged n start (condition, c))

variable {privileged : Bool} {n : Nat}

theorem Shifts.command_succ (hn : Shifts pre privileged n) :
    readCommand privileged (n + 1) (c.behind pre) =
      moved pre id (readCommand privileged (n + 1) c) := by
  simp only [readCommand]
  rw [Cursor.expectWord_behind]
  refine moved_bind_pair _ fun w c₁ => ?_
  dsimp only
  split
  · -- say
    rw [Cursor.incomplete_behind]
    change (if c₁.atEnd = true then _ else _) = _
    split <;> rfl
  · -- counter
    rw [readCounter_behind]
    exact moved_bind _ fun _ => rfl
  · -- fail
    rfl
  · -- execute
    rw [Cursor.incomplete_behind, hn.execute]
    split <;> rfl
  · -- return
    rw [Cursor.eatKeyword_behind]
    cases c₁.eatKeyword "run" with
    | some c₂ =>
      dsimp only [Option.map]
      rw [hn.command]
      exact moved_bind _ fun _ => rfl
    | none =>
      dsimp only [Option.map]
      rw [readReturn_behind]
      exact moved_bind _ fun _ => rfl
  · -- function
    rw [Cursor.incomplete_behind, readCall_behind]
    split
    · exact moved_bind _ fun _ => rfl
    · rfl
  · -- trigger
    rw [Cursor.incomplete_behind, readTrigger_behind]
    split
    · exact moved_bind _ fun _ => rfl
    · rfl
  · rfl

theorem Shifts.execute_succ (hn : Shifts pre privileged n) :
    readExecute privileged (n + 1) (c.behind pre) =
      moved pre id (readExecute privileged (n + 1) c) := by
  simp only [readExecute]
  rw [Cursor.expectWord_behind]
  refine moved_bind_pair _ fun w c₁ => ?_
  dsimp only
  split
  · -- run
    exact hn.command c₁
  · -- as
    rw [readNames_behind]
    refine moved_bind_pair _ fun names c₂ => ?_
    dsimp only
    rw [hn.execute, subcommandText_behind]
    exact moved_bind _ fun _ => rfl
  · -- silent
    rw [hn.execute, subcommandText_behind]
    exact moved_bind _ fun _ => rfl
  · -- if
    rw [readCondition_behind]
    exact moved_bind_pair _ fun condition c₂ => hn.conditional c condition c₂
  · -- unless
    rw [readCondition_behind]
    exact moved_bind_pair _ fun condition c₂ => hn.conditional c condition c₂
  · rfl

theorem Shifts.conditional_succ (hn : Shifts pre privileged n) (start : Cursor)
    (condition : Condition) :
    readConditional privileged (n + 1) (start.behind pre) (condition, c.behind pre) =
      moved pre id (readConditional privileged (n + 1) start (condition, c)) := by
  simp only [readConditional]
  rw [subcommandText_behind, hn.execute]
  change (if c.atEnd = true then _ else _) = _
  split
  · rfl
  · exact moved_bind _ fun _ => rfl

theorem shifts (pre : String) (privileged : Bool) (n : Nat) : Shifts pre privileged n := by
  induction n with
  | zero =>
    refine ⟨fun c => ?_, fun c => ?_, fun start condition c => ?_⟩
    · rw [readCommand, readCommand, Cursor.incomplete_behind]
      rfl
    · rw [readExecute, readExecute, Cursor.incomplete_behind]
      rfl
    · rw [readConditional, readConditional, Cursor.incomplete_behind]
      rfl
  | succ n ih => exact ⟨ih.command_succ, ih.execute_succ, fun _ _ c => ih.conditional_succ c _ _⟩

/-! ### Calls left over -/

/-- What follows a reader need only agree on what it can have read. -/
theorem bind_congr_ok {x : Except CommandError (α × Cursor)} {f g : α × Cursor → Except CommandError β}
    (h : ∀ a next, x = .ok (a, next) → f (a, next) = g (a, next)) : x >>= f = x >>= g := by
  cases x with
  | error e => rfl
  | ok read => exact h read.1 read.2 rfl

/-- `n` calls are as good as any more, for a text they are enough for. -/
structure Settled (privileged : Bool) (n : Nat) : Prop where
  command : ∀ m c, n ≤ m → 2 * c.rest.length + 2 ≤ n →
    readCommand privileged m c = readCommand privileged n c
  execute : ∀ m c, n ≤ m → 2 * c.rest.length + 2 ≤ n →
    readExecute privileged m c = readExecute privileged n c
  conditional : ∀ m start condition c, n ≤ m → 2 * c.rest.length + 3 ≤ n →
    readConditional privileged m start (condition, c) =
      readConditional privileged n start (condition, c)

variable {c : Cursor} {m : Nat}

theorem Settled.command_succ (hn : Settled privileged n) (hm : n ≤ m)
    (hfuel : 2 * c.rest.length + 2 ≤ n + 1) :
    readCommand privileged (m + 1) c = readCommand privileged (n + 1) c := by
  simp only [readCommand]
  refine bind_congr_ok fun w c₁ hw => ?_
  have hword := Cursor.length_expectWord hw
  dsimp only
  split
  any_goals rfl
  · -- execute
    rw [hn.execute m c₁ hm (by omega)]
  · -- return
    cases hrun : c₁.eatKeyword "run" with
    | none => rfl
    | some c₂ =>
      have hlength := Cursor.length_eatKeyword_le hrun
      dsimp only
      rw [hn.command m c₂ hm (by omega)]

theorem Settled.execute_succ (hn : Settled privileged n) (hm : n ≤ m)
    (hfuel : 2 * c.rest.length + 2 ≤ n + 1) :
    readExecute privileged (m + 1) c = readExecute privileged (n + 1) c := by
  simp only [readExecute]
  refine bind_congr_ok fun w c₁ hw => ?_
  have hword := Cursor.length_expectWord hw
  dsimp only
  split
  any_goals rfl
  · -- run
    exact hn.command m c₁ hm (by omega)
  · -- as
    refine bind_congr_ok fun names c₂ hnames => ?_
    have hlength := length_readNames hnames
    dsimp only
    rw [hn.execute m c₂ hm (by omega)]
  · -- silent
    rw [hn.execute m c₁ hm (by omega)]
  · -- if
    refine bind_congr_ok fun condition c₂ hcondition => ?_
    have hlength := length_readCondition hcondition
    exact hn.conditional m c condition c₂ hm (by omega)
  · -- unless
    refine bind_congr_ok fun condition c₂ hcondition => ?_
    have hlength := length_readCondition hcondition
    exact hn.conditional m c condition c₂ hm (by omega)

theorem Settled.conditional_succ (hn : Settled privileged n) {start : Cursor} {condition : Condition}
    (hm : n ≤ m) (hfuel : 2 * c.rest.length + 3 ≤ n + 1) :
    readConditional privileged (m + 1) start (condition, c) =
      readConditional privileged (n + 1) start (condition, c) := by
  simp only [readConditional]
  rw [hn.execute m c hm (by omega)]

theorem settled (privileged : Bool) (n : Nat) : Settled privileged n := by
  induction n with
  | zero =>
    exact ⟨fun _ _ _ h => absurd h (by omega), fun _ _ _ h => absurd h (by omega),
      fun _ _ _ _ _ h => absurd h (by omega)⟩
  | succ n ih =>
    refine ⟨fun m c hm hfuel => ?_, fun m c hm hfuel => ?_, fun m start condition c hm hfuel => ?_⟩
    all_goals obtain ⟨m, rfl⟩ : ∃ k, m = k + 1 := ⟨m - 1, by omega⟩
    · exact ih.command_succ (by omega) hfuel
    · exact ih.execute_succ (by omega) hfuel
    · exact ih.conditional_succ (by omega) hfuel

end Command

end Trampoline
