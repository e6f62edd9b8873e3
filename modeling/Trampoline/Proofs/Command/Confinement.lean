import Trampoline.Proofs.Command.Shape

/-! What an unprivileged source can resolve.

Three commands are open to privileged sources only, and the grammar asks for the
privilege at each of them, wherever it finds them. An unprivileged source comes to
none of them: what it resolves begins with a verb or a `return` behind any number of
`return run` (`Everyday`), said of the words of the line alone. On such a line the
grammar does the same for every source, and on any other it refuses an unprivileged one
(`readCommand_unprivileged`). So the stages it gets are those a privileged source gets,
and none of them reaches beyond the line (`resolve_unprivileged`). -/
namespace Trampoline

/-! ### The words of a line -/

namespace Cursor

/-- What stands between the spaces of a line. -/
def words (cs : List Char) : List String :=
  ((Text.splitWhere isSpace cs).filter fun w => !w.isEmpty).map String.ofList

theorem words_space {ch : Char} (h : isSpace ch) (cs : List Char) : words (ch :: cs) = words cs := by
  simp [words, Text.splitWhere, h]

theorem words_dropSpaces (cs : List Char) : words (cs.dropWhile isSpace) = words cs := by
  induction cs with
  | nil => rfl
  | cons ch cs ih =>
    by_cases h : isSpace ch
    · rw [List.dropWhile_cons_of_pos h, ih, words_space h]
    · rw [List.dropWhile_cons_of_neg h]

/-- A word in front makes the first piece longer. -/
theorem splitWhere_append {w : List Char} (hw : ∀ ch ∈ w, isSpace ch = false) (cs : List Char) :
    ∃ piece pieces, Text.splitWhere isSpace cs = piece :: pieces ∧
      Text.splitWhere isSpace (w ++ cs) = (w ++ piece) :: pieces := by
  induction w with
  | nil =>
    -- the pieces of any text are one or more
    cases h : Text.splitWhere isSpace cs with
    | cons piece pieces => exact ⟨piece, pieces, rfl, h⟩
    | nil =>
      cases cs with
      | nil => cases h
      | cons ch cs =>
        simp only [Text.splitWhere, List.foldr_cons] at h
        split at h
        · cases h
        · split at h <;> cases h
  | cons ch w ih =>
    obtain ⟨hch, hw⟩ := List.forall_mem_cons.mp hw
    obtain ⟨piece, pieces, hcs, hall⟩ := ih hw
    refine ⟨piece, pieces, hcs, ?_⟩
    simp only [Text.splitWhere] at hall ⊢
    simp [hch, hall]

/-- A word ends where the line does, or at a space. -/
theorem words_append {w rest : List Char} (hw : ∀ ch ∈ w, isSpace ch = false) (hne : w ≠ [])
    (hrest : rest.head?.all isSpace) : words (w ++ rest) = String.ofList w :: words rest := by
  obtain ⟨piece, pieces, hsplit, hall⟩ := splitWhere_append hw rest
  have hpiece : piece = [] := by
    cases rest with
    | nil => exact (List.cons.inj hsplit).1.symm
    | cons ch rest =>
      have hch : isSpace ch := hrest
      simp only [Text.splitWhere, List.foldr_cons, hch, if_true] at hsplit
      exact (List.cons.inj hsplit).1.symm
  subst hpiece
  simp [words, hsplit, hall, hne]

theorem head?_dropWhile {α : Type} (p : α → Bool) (as : List α) :
    (as.dropWhile p).head?.all fun a => !p a := by
  have h := List.head?_dropWhile_not p as
  cases hhead : (as.dropWhile p).head? with
  | none => rfl
  | some a => simpa [hhead] using h

/-- The characters up to the first space. -/
def front (cs : List Char) : List Char := cs.takeWhile fun ch => !isSpace ch

theorem drop_front (cs : List Char) :
    cs.drop (front cs).length = cs.dropWhile fun ch => !isSpace ch :=
  drop_length_takeWhile ..

theorem head?_drop_front (cs : List Char) : (cs.drop (front cs).length).head?.all isSpace := by
  rw [drop_front]
  simpa using head?_dropWhile (fun ch => !isSpace ch) cs

theorem words_front {cs : List Char} (hne : front cs ≠ []) :
    words cs = String.ofList (front cs) :: words (cs.drop (front cs).length) := by
  have hword : ∀ ch ∈ front cs, isSpace ch = false := by
    simpa [front] using
      List.all_eq_true.mp (List.all_takeWhile (p := fun ch => !isSpace ch) (l := cs))
  rw [← words_append hword hne (head?_drop_front cs)]
  refine congrArg words ?_
  rw [drop_front]
  exact List.takeWhile_append_dropWhile.symm

variable {c next : Cursor} {w : List Char} {keyword : String}

/-- The word that is read is the first word of the line, and no space follows it. -/
theorem words_expectWord (h : c.expectWord = .ok (w, next)) (hne : w ≠ []) :
    words c.rest = String.ofList w :: words next.rest ∧
      next.rest.head?.all fun ch => !isSpace ch := by
  unfold expectWord word at h
  split at h
  · cases h
  · cases h
    rw [rest_skipSpaces, words_dropSpaces]
    exact ⟨words_front hne, head?_dropWhile ..⟩

theorem words_eatKeyword (hk : ∀ ch ∈ keyword.toList, isSpace ch = false)
    (hne : keyword.toList ≠ []) (h : c.eatKeyword keyword = some next) :
    words c.rest = keyword :: words next.rest := by
  simp only [eatKeyword] at h
  split at h
  · next hnext =>
    cases h
    obtain ⟨hfront, hend⟩ := Bool.and_eq_true_iff.mp hnext
    have hrest := List.prefix_iff_eq_append.mp (List.isPrefixOf_iff_prefix.mp hfront)
    rw [rest_skipSpaces, words_dropSpaces]
    calc words c.rest = words (keyword.toList ++ c.rest.drop keyword.toList.length) :=
          congrArg words hrest.symm
      _ = keyword :: words (c.rest.drop keyword.toList.length) := by
          rw [words_append hk hne hend, String.ofList_toList]
  · cases h

/-- A keyword that is not read is not the next word. -/
theorem head?_words_of_eatKeyword (h : c.eatKeyword keyword = none)
    (hstart : c.rest.head?.all fun ch => !isSpace ch) : (words c.rest).head? ≠ some keyword := by
  intro hhead
  have hne : front c.rest ≠ [] := by
    intro hnil
    cases hrest : c.rest with
    | nil => simp [hrest, words, Text.splitWhere] at hhead
    | cons ch rest =>
      rw [hrest] at hstart hnil
      simp_all [front]
  have hword : front c.rest = keyword.toList := by
    rw [words_front hne, List.head?_cons, Option.some.injEq] at hhead
    rw [← hhead, String.toList_ofList]
  -- then the keyword stands in front, and a space or the end comes after it
  have hfront : (front c.rest).isPrefixOf c.rest :=
    List.isPrefixOf_iff_prefix.mpr <| List.takeWhile_prefix _
  simp only [eatKeyword, ← hword, hfront, head?_drop_front, Bool.and_self, if_true] at h
  cases h

end Cursor

namespace Command

/-! ### Lines that every source may use -/

/-- A command that is open to everybody, behind any number of `return run`: a verb, or a `return` that
gives its result at once. -/
inductive Everyday : List String → Prop where
  | verb {w : String} {rest : List String} (hw : w ∈ ["say", "counter", "fail"]) :
      Everyday (w :: rest)
  | result {rest : List String} (hrest : rest.head? ≠ some "run") : Everyday ("return" :: rest)
  | returnRun {rest : List String} (hrest : Everyday rest) : Everyday ("return" :: "run" :: rest)

/-- What every source may run. -/
inductive Open : Executable standard → Prop where
  | say (text : String) : Open (.command (.say text))
  | getCounter (name : String) : Open (.command (.getCounter name))
  | addCounter (name : String) (delta : Int32) : Open (.command (.addCounter name delta))
  | setCounter (name : String) (value : Int32) : Open (.command (.setCounter name value))
  | fail (text : String) : Open (.command (.fail text))
  | return (value : Option Int32) : Open (.custom (.return value))

/-- A stage that does not fork, is no modifier, and runs nothing that is not open to everybody: no test
of a condition, no call and no trigger. -/
structure Harmless (stage : Stage standard) : Prop where
  forks : stage.forks = false
  redirect : ∀ r, stage.redirect = some r → r = .custom .returnRun
  executable : ∀ e, stage.executable = some e → Open e

variable {c c' : Cursor} {w : List Char} {n : Nat} {stages : List (Stage standard)}

theorem Everyday.mem {first : String} {rest : List String} (h : Everyday (first :: rest)) :
    first ∈ ["say", "counter", "fail", "return"] := by
  cases h with
  | verb hw => exact List.mem_append_left ["return"] hw
  | result hrest => simp
  | returnRun hrest => simp

theorem everyday_return_iff {rest : List String} :
    Everyday ("return" :: "run" :: rest) ↔ Everyday rest := by
  refine ⟨fun h => ?_, .returnRun⟩
  cases h with
  | verb hw => simp at hw
  | result hrest => simp at hrest
  | returnRun hrest => exact hrest

/-- A verb is read alike for every source. -/
theorem readCommand_verb (hw : c.expectWord = .ok (w, c'))
    (hverb : String.ofList w ∈ ["say", "counter", "fail"]) :
    readCommand false (n + 1) c = readCommand true (n + 1) c := by
  simp only [List.mem_cons, List.not_mem_nil, or_false] at hverb
  rcases hverb with h | h | h
  all_goals simp [readCommand, hw, bind, Except.bind, h]

/-- After `return`, the privilege matters only to what `run` is followed by. -/
theorem readCommand_return (privileged : Bool) (hw : c.expectWord = .ok (w, c'))
    (hreturn : String.ofList w = "return") :
    readCommand privileged (n + 1) c =
      match c'.eatKeyword "run" with
      | some next => (readCommand privileged n next).map
          ({ input := c.restText, redirect := some (.custom .returnRun) } :: ·)
      | none => (readReturn c').map fun e =>
          [{ input := c.restText, executable := some (.custom e) }] := by
  simp only [readCommand, hw, bind, Except.bind, hreturn]
  cases c'.eatKeyword "run" with
  | some next => cases readCommand privileged n next <;> rfl
  | none => cases readReturn c' <;> rfl

/-- Whatever else a line begins with, it is refused. -/
theorem readCommand_refused (hw : c.expectWord = .ok (w, c'))
    (hother : String.ofList w ∉ ["say", "counter", "fail", "return"]) :
    ∃ e, readCommand false (n + 1) c = .error e := by
  simp only [List.mem_cons, List.not_mem_nil, or_false, not_or] at hother
  obtain ⟨hsay, hcounter, hfail, hreturn⟩ := hother
  simp only [readCommand, hw, bind, Except.bind]
  split
  · next h => exact absurd h hsay
  · next h => exact absurd h hcounter
  · next h => exact absurd h hfail
  · exact ⟨_, rfl⟩
  · next h => exact absurd h hreturn
  · exact ⟨_, rfl⟩
  · exact ⟨_, rfl⟩
  · exact ⟨_, rfl⟩

theorem map_eq_ok_iff {ε α β : Type} {x : Except ε α} {f : α → β} {b : β} :
    x.map f = .ok b ↔ ∃ a, x = .ok a ∧ f a = b := by
  cases x with
  | error e => simp [Except.map]
  | ok a => simp [Except.map]

/-- **An unprivileged source reads the lines that every source may use, as a privileged one does, and
no others.** By induction on the calls left: only `return run` goes on to a further command. -/
theorem readCommand_unprivileged (n : Nat) (c : Cursor) (stages : List (Stage standard)) :
    readCommand false n c = .ok stages ↔
      readCommand true n c = .ok stages ∧ Everyday (Cursor.words c.rest) := by
  induction n generalizing c stages with
  | zero => simp [readCommand]
  | succ n ih =>
    cases hw : c.expectWord with
    | error e => simp [readCommand, hw, bind, Except.bind]
    | ok result =>
      obtain ⟨w, c'⟩ := result
      by_cases hknown : String.ofList w ∈ ["say", "counter", "fail", "return"]
      · have hne : w ≠ [] := by
          rintro rfl
          simp at hknown
        obtain ⟨hwords, hstart⟩ := Cursor.words_expectWord hw hne
        rw [hwords]
        by_cases hreturn : String.ofList w = "return"
        · rw [readCommand_return false hw hreturn, readCommand_return true hw hreturn, hreturn]
          cases hrun : c'.eatKeyword "run" with
          | some next =>
            have hrest := Cursor.words_eatKeyword (by simp [Cursor.isSpace]) (by decide) hrun
            rw [hrest, everyday_return_iff]
            simp only [map_eq_ok_iff, ih]
            grind
          | none =>
            have hresult : Everyday ("return" :: Cursor.words c'.rest) :=
              .result (Cursor.head?_words_of_eatKeyword hrun hstart)
            simp [hresult]
        · have hverb : String.ofList w ∈ ["say", "counter", "fail"] := by
            simp_all
          rw [readCommand_verb hw hverb, and_iff_left (.verb hverb)]
      · obtain ⟨e, he⟩ := readCommand_refused (n := n) hw hknown
        rw [he]
        refine iff_of_false (by simp) ?_
        rintro ⟨hread, heveryday⟩
        by_cases hne : w = []
        · -- a line that begins with a space is read by nobody
          subst hne
          simp [readCommand, hw, bind, Except.bind] at hread
        · rw [(Cursor.words_expectWord hw hne).1] at heveryday
          exact hknown heveryday.mem

/-! ### What is found -/

theorem Open.harmless {e : Executable standard} (h : Open e) (input : String) :
    Harmless { input, executable := some e } where
  forks := rfl
  redirect _ hr := nomatch hr
  executable _ he := Option.some.inj he ▸ h

theorem open_of_readCounter {verb : Verb} (h : readCounter c = .ok verb) : Open (.command verb) := by
  obtain ⟨⟨action, c₁⟩, -, h⟩ := ok_of_bind h
  obtain ⟨⟨name, c₂⟩, -, h⟩ := ok_of_bind h
  simp only at h
  split at h
  · obtain ⟨-, -, h⟩ := ok_of_bind h
    cases h
    exact .getCounter _
  · obtain ⟨⟨delta, c₃⟩, -, h⟩ := ok_of_bind h
    obtain ⟨-, -, h⟩ := ok_of_bind h
    cases h
    exact .addCounter _ _
  · obtain ⟨⟨value, c₃⟩, -, h⟩ := ok_of_bind h
    obtain ⟨-, -, h⟩ := ok_of_bind h
    cases h
    exact .setCounter _ _
  · cases h

theorem open_of_readReturn {e : Executor} (h : readReturn c = .ok e) : Open (.custom e) := by
  unfold readReturn at h
  split at h
  · obtain ⟨-, -, h⟩ := ok_of_bind h
    cases h
    exact .return none
  · obtain ⟨⟨value, c₁⟩, -, h⟩ := ok_of_bind h
    obtain ⟨-, -, h⟩ := ok_of_bind h
    cases h
    exact .return (some value)

/-- Whatever an unprivileged source finds is harmless. -/
theorem harmless_of_readCommand (n : Nat) (c : Cursor) (stages : List (Stage standard))
    (h : readCommand false n c = .ok stages) : ∀ stage ∈ stages, Harmless stage := by
  induction n generalizing c stages with
  | zero => simp [readCommand] at h
  | succ n ih =>
    have hone : ∀ e : Executable standard, Open e →
        ∀ stage ∈ [({ input := c.restText, executable := some e } : Stage standard)], Harmless stage :=
      fun e he => List.forall_mem_singleton.mpr (he.harmless _)
    rw [readCommand] at h
    obtain ⟨⟨w, c'⟩, -, h⟩ := ok_of_bind h
    simp only at h
    split at h
    · -- say
      split at h
      · cases h
      · cases h
        exact hone _ (.say _)
    · -- counter
      obtain ⟨verb, hverb, h⟩ := ok_of_bind h
      cases h
      exact hone _ (open_of_readCounter hverb)
    · -- fail
      cases h
      exact hone _ (.fail _)
    · -- execute
      cases h
    · -- return
      split at h
      · next c'' _ =>
        obtain ⟨rest, hrest, h⟩ := ok_of_bind h
        cases h
        refine List.forall_mem_cons.mpr ⟨⟨rfl, ?_, by simp⟩, ih c'' rest hrest⟩
        intro r hr
        exact (Option.some.inj hr).symm
      · obtain ⟨e, he, h⟩ := ok_of_bind h
        cases h
        exact hone _ (open_of_readReturn he)
    · -- function
      cases h
    · -- trigger
      cases h
    · cases h

/-- **Low permission confines resolution.** Privileged sources all resolve a line alike. Any other
source resolves it if and only if a privileged one does and every source may use the line, and then
it finds the same stages: none that forks, changes the sources, tests a condition or calls a
function. -/
theorem resolve_unprivileged (input : String) :
    (∀ p q, privilegedLevel ≤ p → privilegedLevel ≤ q → resolve p input = resolve q input) ∧
    ∀ p, p < privilegedLevel → ∀ stages,
      (resolve p input = .ok stages ↔
        resolve privilegedLevel input = .ok stages ∧ Everyday (Cursor.words input.toList)) ∧
      (resolve p input = .ok stages → ∀ stage ∈ stages, Harmless stage) := by
  have hprivileged : ∀ p, privilegedLevel ≤ p →
      resolve p input = readCommand true (fuelFor (.ofText input)) (.ofText input) := by
    intro p hp
    simp [resolve, hp]
  refine ⟨fun p q hp hq => by rw [hprivileged p hp, hprivileged q hq], fun p hp stages => ?_⟩
  have hunprivileged :
      resolve p input = readCommand false (fuelFor (.ofText input)) (.ofText input) := by
    simp [resolve, Nat.not_le_of_lt hp]
  rw [hunprivileged, hprivileged _ (Nat.le_refl _)]
  exact ⟨readCommand_unprivileged _ _ stages, harmless_of_readCommand _ _ stages⟩

/-- A verb behind two `return run` is for everybody, spaces or not. Behind an `execute` it is for the
privileged, although the `execute` stands behind a `return run`. -/
theorem resolve_unprivileged_nested :
    0 < privilegedLevel ∧
      (∃ stages, resolve 0 "return run return  run say hi" = .ok stages ∧ stages.length = 3) ∧
      (∃ stages, resolve privilegedLevel "return run execute as a run say hi" = .ok stages) ∧
      ∀ stages, resolve 0 "return run execute as a run say hi" ≠ .ok stages := by
  have hlow : 0 < privilegedLevel := by decide
  refine ⟨hlow, ?_, ⟨_, rfl⟩, fun stages h => ?_⟩
  · obtain ⟨stages, hread⟩ : ∃ stages,
        resolve privilegedLevel "return run return  run say hi" = .ok stages := ⟨_, rfl⟩
    have hwords : Cursor.words "return run return  run say hi".toList =
        ["return", "run", "return", "run", "say", "hi"] := by decide
    refine ⟨stages, ((resolve_unprivileged _).2 0 hlow stages).1.mpr ⟨hread, ?_⟩, ?_⟩
    · rw [hwords]
      exact .returnRun (.returnRun (.verb (by decide)))
    · cases hread
      rfl
  · have hwords : Cursor.words "return run execute as a run say hi".toList =
        ["return", "run", "execute", "as", "a", "run", "say", "hi"] := by decide
    have heveryday := (((resolve_unprivileged _).2 0 hlow stages).1.mp h).2
    rw [hwords, everyday_return_iff] at heveryday
    exact absurd heveryday.mem (by decide)

end Command

end Trampoline
