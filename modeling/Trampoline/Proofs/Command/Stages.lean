import Trampoline.Command.Grammar
import Trampoline.Proofs.Cursor

/-! A command has no more stages than its line has characters.

Every stage begins with a word, and reading a word uses up at least one character
(`length_expectWord`). The grammar reads a line by three functions that call each
other with less and less fuel, so their bounds are proved together, by induction on
the fuel (`fits`). -/
namespace Trampoline

namespace Cursor

variable {c next : Cursor}

/-- A word, or the space in its place, uses up a character. -/
theorem length_expectWord {w : List Char} (h : c.expectWord = .ok (w, next)) :
    next.rest.length < c.rest.length := by
  obtain ⟨source, position, rest⟩ := c
  cases rest with
  | nil => cases h
  | cons ch rest =>
    cases h
    have hle := length_skipSpaces_le
      (skip ⟨source, position, ch :: rest⟩ ((ch :: rest).takeWhile fun ch => !isSpace ch).length)
    rw [length_skip] at hle
    simp only [List.length_cons] at hle ⊢
    by_cases hspace : isSpace ch
    · have hword : (ch :: rest).takeWhile (fun ch => !isSpace ch) = [] := by simp [hspace]
      have hspaces : ((ch :: rest).takeWhile isSpace).length ≠ 0 := by simp [hspace]
      rw [hword, skipSpaces, length_skip]
      change rest.length + 1 - ((ch :: rest).takeWhile isSpace).length < rest.length + 1
      omega
    · have hword : ((ch :: rest).takeWhile fun ch => !isSpace ch).length ≠ 0 := by simp [hspace]
      omega

theorem length_expectNumber {α : Type} {read : List Char → Option α} {a : α}
    (h : c.expectNumber read = .ok (a, next)) : next.rest.length < c.rest.length := by
  unfold expectNumber number at h
  cases hw : c.expectWord with
  | error e =>
    rw [hw] at h
    cases h
  | ok result =>
    obtain ⟨w, c'⟩ := result
    simp only [hw] at h
    cases hn : read w with
    | none =>
      rw [hn] at h
      cases h
    | some n =>
      rw [hn] at h
      cases h
      exact length_expectWord hw

theorem length_eatKeyword_le {keyword : String} (h : c.eatKeyword keyword = some next) :
    next.rest.length ≤ c.rest.length := by
  simp only [eatKeyword] at h
  split at h
  · cases h
    refine Nat.le_trans (length_skipSpaces_le _) ?_
    rw [length_skip]
    exact Nat.sub_le ..
  · cases h

end Cursor

namespace Command

variable {c next : Cursor}

/-- What was read before is read well if what comes after is. -/
theorem ok_of_bind {ε α β : Type} {x : Except ε α} {f : α → Except ε β} {b : β}
    (h : (do f (← x)) = .ok b) : ∃ a, x = .ok a ∧ f a = .ok b := by
  cases x with
  | error e => cases h
  | ok a => exact ⟨a, rfl, h⟩

theorem length_readNames {names : List String} (h : readNames c = .ok (names, next)) :
    next.rest.length < c.rest.length := by
  obtain ⟨⟨w, c'⟩, hw, h⟩ := ok_of_bind h
  have hlength := Cursor.length_expectWord hw
  simp only at h
  split at h
  · cases h
  · cases h
    exact hlength

theorem length_readCondition {expected : Bool} {condition : Condition}
    (h : readCondition expected c = .ok (condition, next)) : next.rest.length < c.rest.length := by
  unfold readCondition at h
  split at h
  · cases h
  · next c' hkeyword =>
    have hlength := Cursor.length_eatKeyword_le hkeyword
    obtain ⟨⟨w, c₁⟩, hw, h⟩ := ok_of_bind h
    obtain ⟨⟨least, c₂⟩, hn, h⟩ := ok_of_bind h
    have hword := Cursor.length_expectWord hw
    have hnumber := Cursor.length_expectNumber hn
    cases h
    omega

/-- With `n` calls left, no function of the grammar finds more stages than there are characters. A
condition was read already when the last function goes on. -/
structure Fits (privileged : Bool) (n : Nat) : Prop where
  command : ∀ c stages, readCommand privileged n c = .ok stages → stages.length ≤ c.rest.length
  execute : ∀ c stages, readExecute privileged n c = .ok stages → stages.length ≤ c.rest.length
  conditional : ∀ start condition c stages,
    readConditional privileged n start (condition, c) = .ok stages →
      stages.length ≤ c.rest.length + 1

variable {privileged : Bool} {n : Nat} {stages : List (Stage standard)}

theorem Fits.readCommand_succ (hn : Fits privileged n)
    (h : readCommand privileged (n + 1) c = .ok stages) : stages.length ≤ c.rest.length := by
  rw [readCommand] at h
  obtain ⟨⟨w, c'⟩, hw, h⟩ := ok_of_bind h
  have hword := Cursor.length_expectWord hw
  have hone : 1 ≤ c.rest.length := Nat.zero_lt_of_lt hword
  simp only at h
  split at h
  · -- say
    split at h
    · cases h
    · cases h
      exact hone
  · -- counter
    obtain ⟨verb, -, h⟩ := ok_of_bind h
    cases h
    exact hone
  · -- fail
    cases h
    exact hone
  · -- execute
    split at h
    · exact Nat.le_trans (hn.execute c' stages h) (Nat.le_of_lt hword)
    · cases h
  · -- return
    split at h
    · next c'' hkeyword =>
      have hlength := Cursor.length_eatKeyword_le hkeyword
      obtain ⟨rest, hrest, h⟩ := ok_of_bind h
      have hstages := hn.command c'' rest hrest
      cases h
      rw [List.length_cons]
      omega
    · obtain ⟨e, -, h⟩ := ok_of_bind h
      cases h
      exact hone
  · -- function
    split at h
    · obtain ⟨e, -, h⟩ := ok_of_bind h
      cases h
      exact hone
    · cases h
  · -- trigger
    split at h
    · obtain ⟨e, -, h⟩ := ok_of_bind h
      cases h
      exact hone
    · cases h
  · cases h

theorem Fits.readExecute_succ (hn : Fits privileged n)
    (h : readExecute privileged (n + 1) c = .ok stages) : stages.length ≤ c.rest.length := by
  rw [readExecute] at h
  obtain ⟨⟨w, c'⟩, hw, h⟩ := ok_of_bind h
  have hword := Cursor.length_expectWord hw
  simp only at h
  split at h
  · -- run
    exact Nat.le_trans (hn.command c' stages h) (Nat.le_of_lt hword)
  · -- as
    obtain ⟨⟨names, c''⟩, hnames, h⟩ := ok_of_bind h
    obtain ⟨rest, hrest, h⟩ := ok_of_bind h
    have hlength := length_readNames hnames
    have hstages := hn.execute c'' rest hrest
    cases h
    rw [List.length_cons]
    omega
  · -- silent
    obtain ⟨rest, hrest, h⟩ := ok_of_bind h
    have hstages := hn.execute c' rest hrest
    cases h
    rw [List.length_cons]
    omega
  · -- if
    obtain ⟨⟨condition, c''⟩, hcondition, h⟩ := ok_of_bind h
    have hlength := length_readCondition hcondition
    have hstages := hn.conditional c condition c'' stages h
    omega
  · -- unless
    obtain ⟨⟨condition, c''⟩, hcondition, h⟩ := ok_of_bind h
    have hlength := length_readCondition hcondition
    have hstages := hn.conditional c condition c'' stages h
    omega
  · cases h

theorem Fits.readConditional_succ (hn : Fits privileged n) {start : Cursor} {condition : Condition}
    (h : readConditional privileged (n + 1) start (condition, c) = .ok stages) :
    stages.length ≤ c.rest.length + 1 := by
  rw [readConditional] at h
  split at h
  · cases h
    exact Nat.le_add_left ..
  · obtain ⟨rest, hrest, h⟩ := ok_of_bind h
    have hstages := hn.execute c rest hrest
    cases h
    rw [List.length_cons]
    omega

theorem fits (privileged : Bool) (n : Nat) : Fits privileged n := by
  induction n with
  | zero =>
    refine ⟨fun c stages h => ?_, fun c stages h => ?_, fun start condition c stages h => ?_⟩
    · rw [readCommand] at h
      cases h
    · rw [readExecute] at h
      cases h
    · rw [readConditional] at h
      cases h
  | succ n ih =>
    exact ⟨fun _ _ => ih.readCommand_succ, fun _ _ => ih.readExecute_succ,
      fun _ _ _ _ => ih.readConditional_succ⟩

/-- A chain that was read from a text stands on the first of at most as many stages as the text has
characters. -/
theorem length_after_parse {permission : Nat} {input : String} {chain : Chain standard}
    (h : parse permission input = .ok chain) : chain.after.length < input.toList.length := by
  unfold parse Chain.parse at h
  split at h
  · cases h
  · next stages hstages =>
    have hlength := (fits _ _).command _ _ hstages
    unfold Chain.flatten? at h
    split at h
    · next chain' hflat =>
      cases h
      split at hflat
      · cases hflat
      · split at hflat
        · cases hflat
          exact hlength
        · cases hflat
    · cases h

end Command

end Trampoline
