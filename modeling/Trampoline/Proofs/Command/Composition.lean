import Trampoline.Proofs.Command.Confinement
import Trampoline.Proofs.Command.Shift

/-! How lines are put together.

A line that begins with `return run`, or with an `execute` and its subcommands, goes on with a
line of its own: the first words become stages, and the stages after them are those of the rest
(`resolve_compositional`). A word is followed by spaces and then by something else (`Gap`), and
the cursor behind them is the one that skips them, so the text of a subcommand is cut out of the
line again (`upTo_skip`). -/
namespace Trampoline

namespace Text

/-- A space at the end is trimmed off. -/
theorem trimEnd_space (cs : List Char) : trimEnd (cs ++ [' ']) = trimEnd cs := by
  rw [trimEnd, List.reverse_append, List.reverse_singleton, List.singleton_append,
    List.dropWhile_cons_of_pos (by decide), trimEnd]

end Text

namespace Cursor

/-- Spaces, at least one. -/
def Gap (gap : List Char) : Prop := gap ≠ [] ∧ ∀ ch ∈ gap, ch = ' '

/-- A word: characters other than spaces, at least one. -/
def Word (w : List Char) : Prop := w ≠ [] ∧ ∀ ch ∈ w, ch ≠ ' '

instance (gap : List Char) : Decidable (Gap gap) :=
  @instDecidableAnd _ _ inferInstance (List.decidableBAll _ gap)

instance (w : List Char) : Decidable (Word w) :=
  @instDecidableAnd _ _ inferInstance (List.decidableBAll _ w)

variable {c : Cursor} {w gap tail : List Char}

theorem Word.head?_ne (hw : Word w) (tail : List Char) : (w ++ tail).head? ≠ some ' ' := by
  obtain ⟨ch, w, rfl⟩ := List.exists_cons_of_ne_nil hw.1
  exact fun heq => hw.2 ch List.mem_cons_self (Option.some.inj heq)

/-- Spaces that end in one more. -/
theorem gap_concat (hgap : ∀ ch ∈ gap, ch = ' ') : Gap (gap ++ [' ']) :=
  ⟨by simp, List.forall_mem_append.mpr ⟨hgap, fun _ hch => List.mem_singleton.mp hch⟩⟩

theorem rest_skip (before : List Char) (h : c.rest = before ++ tail) :
    (c.skip before.length).rest = tail := by
  rw [skip, h, List.drop_left]

theorem takeWhile_gap (hgap : ∀ ch ∈ gap, ch = ' ') (htail : tail.head? ≠ some ' ') :
    (gap ++ tail).takeWhile isSpace = gap := by
  rw [List.takeWhile_append_of_pos fun ch hch => by simp [hgap ch hch, isSpace]]
  cases tail with
  | nil => exact List.append_nil gap
  | cons ch tail =>
    have hch : ch ≠ ' ' := fun heq => htail (congrArg some heq)
    rw [List.takeWhile_cons_of_neg (by simpa [isSpace] using hch), List.append_nil]

theorem skipSpaces_of_gap (hgap : Gap gap) (htail : tail.head? ≠ some ' ')
    (h : c.rest = gap ++ tail) : c.skipSpaces = c.skip gap.length := by
  rw [skipSpaces, h, takeWhile_gap hgap.2 htail]

theorem Gap.head? (hgap : Gap gap) (tail : List Char) : (gap ++ tail).head? = some ' ' := by
  obtain ⟨ch, gap, rfl⟩ := List.exists_cons_of_ne_nil hgap.1
  exact congrArg some (hgap.2 ch List.mem_cons_self)

/-- The cursor behind a word and its gap. -/
theorem skip_word (hgap : Gap gap) (htail : tail.head? ≠ some ' ') (h : c.rest = w ++ (gap ++ tail)) :
    (c.skip w.length).skipSpaces = c.skip (w ++ gap).length := by
  rw [skipSpaces_of_gap hgap htail (rest_skip w h), skip_skip, List.length_append]

theorem expectWord_of_gap (hw : Word w) (hgap : Gap gap) (htail : tail.head? ≠ some ' ')
    (h : c.rest = w ++ (gap ++ tail)) : c.expectWord = .ok (w, c.skip (w ++ gap).length) := by
  have hword : c.rest.takeWhile (fun ch => !isSpace ch) = w := by
    obtain ⟨ch, gap, rfl⟩ := List.exists_cons_of_ne_nil hgap.1
    rw [h, List.takeWhile_append_of_pos fun ch hch => by simp [hw.2 ch hch, isSpace],
      List.cons_append, List.takeWhile_cons_of_neg, List.append_nil]
    simp [hgap.2 ch List.mem_cons_self, isSpace]
  have hsome : c.atEnd = false := by simp [atEnd, h, hw.1]
  rw [expectWord, hsome, if_neg Bool.false_ne_true, word, hword,
    skip_word hgap htail h]

theorem eatKeyword_of_gap {keyword : String} (hgap : Gap gap) (htail : tail.head? ≠ some ' ')
    (h : c.rest = keyword.toList ++ (gap ++ tail)) :
    c.eatKeyword keyword = some (c.skip (keyword.toList ++ gap).length) := by
  have hnext : (keyword.toList.isPrefixOf c.rest &&
      (c.rest.drop keyword.toList.length).head?.all isSpace) = true := by
    rw [h, List.drop_left, hgap.head?, Bool.and_eq_true, List.isPrefixOf_iff_prefix]
    exact ⟨List.prefix_append .., rfl⟩
  rw [eatKeyword, if_pos hnext, skip_word hgap htail h]

/-- A valid cursor is one of its rest, in a longer text. -/
theorem Valid.exists_behind {x : String} (hc : c.Valid) (h : c.rest = x.toList) :
    ∃ pre, c = (ofText x).behind pre := by
  obtain ⟨source, position, rest⟩ := c
  obtain ⟨read, hsource, hposition⟩ := hc
  refine ⟨String.ofList read, ?_⟩
  have hsource' : source = String.ofList read ++ x := by
    rw [← String.toList_inj, hsource, String.toList_append, String.toList_ofList]
    exact congrArg (read ++ ·) h
  have hposition' : position = (String.ofList read).utf8ByteSize + 0 := by
    rw [← Text.width_toList, String.toList_ofList]
    exact hposition
  rw [hsource', hposition']
  exact congrArg (Cursor.mk _ _) h

end Cursor

namespace Command
open Cursor (Gap Word)

/-- Only naming several sources forks. -/
def Modifier.forks : Modifier → Bool
  | rename _ => true
  | silence => false
  | filter _ => false

/-- A subcommand of `execute` that redirects, and what it does to the sources. Spaces may be left
behind it. -/
inductive IsSubcommand : List Char → Modifier → Prop where
  | as {gap w trail : List Char} {names : List String} (hgap : Gap gap) (hw : Word w)
      (hnames : ((Text.split ',' w).filter fun name => !name.isEmpty).map String.ofList = names)
      (hsome : names ≠ []) (htrail : ∀ ch ∈ trail, ch = ' ') :
      IsSubcommand ("as".toList ++ (gap ++ (w ++ trail))) (.rename names)
  | silent {trail : List Char} (htrail : ∀ ch ∈ trail, ch = ' ') :
      IsSubcommand ("silent".toList ++ trail) .silence
  | condition {keyword : String} {expected : Bool} {gap gap' gap'' name number trail : List Char}
      {least : Int32}
      (hkeyword : (keyword, expected) = ("if", true) ∨ (keyword, expected) = ("unless", false))
      (hgap : Gap gap) (hgap' : Gap gap') (hname : Word name) (hgap'' : Gap gap'')
      (hnumber : Word number) (hleast : Numeral.readInt32 number = some least)
      (htrail : ∀ ch ∈ trail, ch = ' ') :
      IsSubcommand (keyword.toList ++ (gap ++ ("counter".toList ++ (gap' ++ (name ++ (gap'' ++
        (number ++ trail))))))) (.filter ⟨expected, String.ofList name, least⟩)

/-- The stage of a subcommand. -/
def stageOf (text : List Char) (m : Modifier) : Stage standard :=
  { input := String.ofList (Text.trimEnd text), redirect := some (.modifier m), forks := m.forks }

variable {c : Cursor} {privileged : Bool} {text tail : List Char} {m : Modifier} {n : Nat}

theorem readExecute_settled (hfuel : fuelFor c ≤ n) :
    readExecute privileged n c = readExecute privileged (fuelFor c) c :=
  (settled privileged _).execute n c hfuel (Nat.le_refl _)

theorem subcommandText_skip (h : c.rest = text ++ ' ' :: tail) :
    subcommandText c (c.skip (text.length + 1)) = String.ofList (Text.trimEnd text) := by
  have htake : c.rest.take (text.length + 1) = text ++ [' '] := by
    rw [h, List.append_cons]
    exact List.take_left' (by simp)
  rw [subcommandText, Cursor.upTo_skip, htake, Text.trimEnd_space]

theorem ok_bind {ε α β : Type} (a : α) (f : α → Except ε β) : (Except.ok a >>= f) = f a := rfl

theorem readNames_of_gap {w gap : List Char} {names : List String} (hw : Word w) (hgap : Gap gap)
    (htail : tail.head? ≠ some ' ')
    (hnames : ((Text.split ',' w).filter fun name => !name.isEmpty).map String.ofList = names)
    (hsome : names ≠ []) (h : c.rest = w ++ (gap ++ tail)) :
    readNames c = .ok (names, c.skip (w ++ gap).length) := by
  have hempty : names.isEmpty = false := List.isEmpty_eq_false_iff.mpr hsome
  rw [readNames, Cursor.expectWord_of_gap hw hgap htail h]
  simp only [ok_bind, hnames, hempty, if_neg Bool.false_ne_true]
  rfl

theorem expectNumber_of_gap {w gap : List Char} {α : Type} {read : List Char → Option α} {a : α}
    (hw : Word w) (hgap : Gap gap) (htail : tail.head? ≠ some ' ') (hread : read w = some a)
    (h : c.rest = w ++ (gap ++ tail)) :
    c.expectNumber read = .ok (a, c.skip (w ++ gap).length) := by
  rw [Cursor.expectNumber, Cursor.number, Cursor.expectWord_of_gap hw hgap htail h]
  simp only [hread]

theorem readCondition_of_gap {gap' name gap'' number gap : List Char} {least : Int32}
    (expected : Bool) (hgap' : Gap gap') (hname : Word name) (hgap'' : Gap gap'')
    (hnumber : Word number) (hgap : Gap gap) (htail : tail.head? ≠ some ' ')
    (hleast : Numeral.readInt32 number = some least)
    (h : c.rest = "counter".toList ++ (gap' ++ (name ++ (gap'' ++ (number ++ (gap ++ tail)))))) :
    readCondition expected c = .ok (⟨expected, String.ofList name, least⟩,
      c.skip ("counter".toList ++ (gap' ++ (name ++ (gap'' ++ (number ++ gap))))).length) := by
  have hkeyword := Cursor.eatKeyword_of_gap hgap' (hname.head?_ne _) h
  have hrest := Cursor.rest_skip ("counter".toList ++ gap') (h.trans (List.append_assoc ..).symm)
  have hword := Cursor.expectWord_of_gap hname hgap'' (hnumber.head?_ne _) hrest
  have hrest' := Cursor.rest_skip (name ++ gap'') (hrest.trans (List.append_assoc ..).symm)
  have hread := expectNumber_of_gap hnumber hgap htail hleast hrest'
  have hlength : ("counter".toList ++ (gap' ++ (name ++ (gap'' ++ (number ++ gap))))).length =
      ("counter".toList ++ gap').length + (name ++ gap'').length + (number ++ gap).length := by
    simp only [List.length_append]
    omega
  simp only [readCondition, hkeyword, hword, ok_bind, hread]
  rw [Cursor.skip_skip, Cursor.skip_skip, hlength, Nat.add_assoc]
  rfl

/-- The stage of what was read from `c` to `next`, in front of what `execute` finds there. -/
theorem map_stage {next : Cursor} (hnext : next = c.skip (text.length + 1))
    (hrest : c.rest = text ++ ' ' :: tail) (hfuel : 2 * c.rest.length ≤ n) :
    (do return { input := subcommandText c next, redirect := some (.modifier m), forks := m.forks } ::
      (← readExecute privileged n next)) =
      (readExecute privileged (fuelFor (c.skip (text.length + 1))) (c.skip (text.length + 1))).map
        (stageOf text m :: ·) := by
  have hlength : next.rest.length + text.length + 1 = c.rest.length := by
    rw [hnext, Cursor.length_skip, hrest, List.length_append, List.length_cons]
    omega
  rw [readExecute_settled (by rw [fuelFor]; omega), hnext, subcommandText_skip hrest]
  cases readExecute privileged (fuelFor (c.skip (text.length + 1))) (c.skip (text.length + 1)) <;> rfl

theorem readConditional_stage {next : Cursor} {condition : Condition}
    (hnext : next = c.skip (text.length + 1)) (hrest : c.rest = text ++ ' ' :: tail)
    (hsome : tail ≠ []) (hfuel : 2 * c.rest.length ≤ n) :
    readConditional privileged (n + 1) c (condition, next) =
      (readExecute privileged (fuelFor (c.skip (text.length + 1))) (c.skip (text.length + 1))).map
        (stageOf text (.filter condition) :: ·) := by
  have hbehind : next.rest = tail := by
    rw [hnext, Cursor.skip, hrest, List.append_cons]
    exact List.drop_left' (by simp)
  have hend : next.atEnd = false := by rw [Cursor.atEnd, hbehind, List.isEmpty_eq_false_iff.mpr hsome]
  simp only [readConditional, hend, if_neg Bool.false_ne_true]
  exact map_stage (m := .filter condition) hnext hrest hfuel

/-- A subcommand is read as its stage, and what follows it as what it is without it. -/
theorem IsSubcommand.read (h : IsSubcommand text m) (hrest : c.rest = text ++ ' ' :: tail)
    (htail : tail.head? ≠ some ' ') (hsome : tail ≠ []) :
    readExecute privileged (fuelFor c) c =
      (readExecute privileged (fuelFor (c.skip (text.length + 1))) (c.skip (text.length + 1))).map
        (stageOf text m :: ·) := by
  obtain ⟨n, hn, hfuel⟩ : ∃ n, fuelFor c = n + 2 ∧ 2 * c.rest.length ≤ n := ⟨_, rfl, Nat.le_refl _⟩
  rw [hn, readExecute]
  -- a condition takes two calls, one of them for what comes after it; the others take one
  cases h with
  | @as gap w trail names hgap hw hnames hsome htrail =>
    have hfront : c.rest = "as".toList ++ (gap ++ (w ++ ((trail ++ [' ']) ++ tail))) := by
      simp [hrest]
    have hword := Cursor.expectWord_of_gap (by decide) hgap (hw.head?_ne _) hfront
    have hbehind := Cursor.rest_skip ("as".toList ++ gap) (hfront.trans (List.append_assoc ..).symm)
    have hread := readNames_of_gap hw (Cursor.gap_concat htrail) htail hnames hsome hbehind
    simp only [hword, String.ofList_toList, ok_bind, hread]
    refine map_stage (m := .rename names) ?_ hrest (Nat.le_succ_of_le hfuel)
    rw [Cursor.skip_skip]
    exact congrArg c.skip (by simp only [List.length_append, List.length_singleton]; omega)
  | @silent trail htrail =>
    have hfront : c.rest = "silent".toList ++ ((trail ++ [' ']) ++ tail) := by simp [hrest]
    have hword := Cursor.expectWord_of_gap (by decide) (Cursor.gap_concat htrail) htail hfront
    simp only [hword, String.ofList_toList, ok_bind]
    refine map_stage (m := .silence) ?_ hrest (Nat.le_succ_of_le hfuel)
    exact congrArg c.skip (by simp only [List.length_append, List.length_singleton]; omega)
  | @condition keyword expected gap gap' gap'' name number trail least hkeyword hgap hgap' hname hgap''
      hnumber hleast htrail =>
    have hkeyword' : Word keyword.toList := by
      rcases hkeyword with hkeyword | hkeyword <;> cases hkeyword <;> decide
    have hfront : c.rest = keyword.toList ++ (gap ++ ("counter".toList ++ (gap' ++ (name ++ (gap'' ++
        (number ++ ((trail ++ [' ']) ++ tail))))))) := by
      simp [hrest]
    have hcounter : Word "counter".toList := by decide
    have hword := Cursor.expectWord_of_gap hkeyword' hgap (hcounter.head?_ne _) hfront
    have hbehind := Cursor.rest_skip (keyword.toList ++ gap)
      (hfront.trans (List.append_assoc ..).symm)
    have hread := readCondition_of_gap expected hgap' hname hgap'' hnumber (Cursor.gap_concat htrail)
      htail hleast hbehind
    have hnext : (c.skip (keyword.toList ++ gap).length).skip ("counter".toList ++ (gap' ++ (name ++
        (gap'' ++ (number ++ (trail ++ [' '])))))).length = c.skip ((keyword.toList ++ (gap ++
        ("counter".toList ++ (gap' ++ (name ++ (gap'' ++ (number ++ trail))))))).length + 1) := by
      rw [Cursor.skip_skip]
      exact congrArg c.skip (by simp only [List.length_append, List.length_singleton]; omega)
    -- the keyword only decides what the condition expects
    rcases hkeyword with hkeyword | hkeyword <;> cases hkeyword
    all_goals
      simp only [hword, String.ofList_toList, ok_bind, hread]
      exact readConditional_stage hnext hrest hsome hfuel

/-- A line behind subcommands and `run`. -/
def withSubcommands : List (String × Modifier) → String → String
  | [], x => "run " ++ x
  | (text, _) :: subs, x => text ++ " " ++ withSubcommands subs x

theorem IsSubcommand.word_front (h : IsSubcommand text m) : ∃ w rest, Word w ∧ text = w ++ rest := by
  cases h with
  | as => exact ⟨_, _, by decide, rfl⟩
  | silent => exact ⟨_, _, by decide, rfl⟩
  | condition hkeyword =>
    refine ⟨_, _, ?_, rfl⟩
    rcases hkeyword with hkeyword | hkeyword <;> cases hkeyword <;> decide

theorem withSubcommands_front {subs : List (String × Modifier)}
    (h : ∀ sub ∈ subs, IsSubcommand sub.1.toList sub.2) (x : String) :
    ∃ w rest, Word w ∧ (withSubcommands subs x).toList = w ++ rest := by
  cases subs with
  | nil => exact ⟨"run".toList, ' ' :: x.toList, by decide, by simp [withSubcommands]⟩
  | cons sub subs =>
    obtain ⟨w, rest, hw, heq⟩ := (h sub List.mem_cons_self).word_front
    exact ⟨w, rest ++ ' ' :: (withSubcommands subs x).toList, hw, by simp [withSubcommands, heq]⟩

/-- A command in a line is read as a line of its own, whatever stands before it. -/
theorem readCommand_eq_resolve {x : String} (permission : Nat) (hc : c.Valid)
    (hrest : c.rest = x.toList) (hfuel : fuelFor c ≤ n) :
    ∃ pre, readCommand (privilegedLevel ≤ permission) n c = moved pre id (resolve permission x) := by
  obtain ⟨pre, rfl⟩ := hc.exists_behind hrest
  refine ⟨pre, ?_⟩
  have hsettled := (settled (privilegedLevel ≤ permission) _).command n (.ofText x) hfuel (Nat.le_refl _)
  rw [(shifts pre _ n).command, hsettled]
  rfl

theorem readExecute_withSubcommands {subs : List (String × Modifier)} {x : String} (permission : Nat)
    (hsubs : ∀ sub ∈ subs, IsSubcommand sub.1.toList sub.2) (hx : x.toList.head? ≠ some ' ')
    (hc : c.Valid) (hrest : c.rest = (withSubcommands subs x).toList) :
    ∃ pre, readExecute (privilegedLevel ≤ permission) (fuelFor c) c =
      moved pre (subs.map (fun sub => stageOf sub.1.toList sub.2) ++ ·) (resolve permission x) := by
  induction subs generalizing c with
  | nil =>
    have hfront : c.rest = "run".toList ++ ([' '] ++ x.toList) := by simp [hrest, withSubcommands]
    have hword := Cursor.expectWord_of_gap (by decide) (by decide) hx hfront
    have hbehind := Cursor.rest_skip ("run".toList ++ [' ']) hfront
    obtain ⟨pre, hread⟩ := readCommand_eq_resolve permission
      (n := 2 * c.rest.length + 1) (Cursor.valid_skip hc _) hbehind (by
        rw [fuelFor, Cursor.length_skip, hfront]
        simp
        omega)
    refine ⟨pre, ?_⟩
    simp only [fuelFor, readExecute, hword, String.ofList_toList, ok_bind]
    exact hread
  | cons sub subs ih =>
    obtain ⟨hsub, hsubs⟩ := List.forall_mem_cons.mp hsubs
    obtain ⟨w, rest, hw, heq⟩ := withSubcommands_front hsubs x
    have hfront : c.rest = sub.1.toList ++ ' ' :: (withSubcommands subs x).toList := by
      simp [hrest, withSubcommands]
    have hbehind := Cursor.rest_skip (sub.1.toList ++ [' ']) (hfront.trans (List.append_cons ..))
    obtain ⟨pre, hread⟩ := ih hsubs (Cursor.valid_skip hc _) hbehind
    refine ⟨pre, ?_⟩
    -- the subcommand in front is one stage, and the cursor behind it is where the others begin
    rw [hsub.read hfront (heq ▸ hw.head?_ne rest) (by simp [heq, hw.1])]
    rw [List.length_append, List.length_singleton] at hread
    rw [hread]
    cases resolve permission x <;> rfl

theorem moved_eq_ok_iff {α : Type} {pre : String} {move : α → α} {r : Except CommandError α} {a : α} :
    moved pre move r = .ok a ↔ ∃ b, r = .ok b ∧ a = move b := by
  cases r with
  | error e => simp [moved]
  | ok b => simp [moved, eq_comm]

theorem resolve_execute {x : String} {permission : Nat} (hp : privilegedLevel ≤ permission)
    {subs : List (String × Modifier)} (hsubs : ∀ sub ∈ subs, IsSubcommand sub.1.toList sub.2)
    (hx : x.toList.head? ≠ some ' ') :
    ∃ pre, resolve permission ("execute " ++ withSubcommands subs x) =
      moved pre (subs.map (fun sub => stageOf sub.1.toList sub.2) ++ ·) (resolve permission x) := by
  obtain ⟨w, rest, hw, heq⟩ := withSubcommands_front hsubs x
  let c := Cursor.ofText ("execute " ++ withSubcommands subs x)
  have hfront : c.rest = "execute".toList ++ ([' '] ++ (withSubcommands subs x).toList) := by
    simp [c, Cursor.ofText]
  have hword := Cursor.expectWord_of_gap (by decide) (by decide) (heq ▸ hw.head?_ne rest) hfront
  have hbehind := Cursor.rest_skip ("execute".toList ++ [' ']) hfront
  obtain ⟨pre, hread⟩ := readExecute_withSubcommands permission hsubs hx
    (Cursor.valid_skip (Cursor.valid_ofText _) _) hbehind
  have hfuel : fuelFor (c.skip ("execute".toList ++ [' ']).length) ≤ 2 * c.rest.length + 1 := by
    rw [fuelFor, Cursor.length_skip, hfront]
    simp
    omega
  refine ⟨pre, ?_⟩
  change readCommand (privilegedLevel ≤ permission) (2 * c.rest.length + 1 + 1) c = _
  simp only [readCommand, hword, String.ofList_toList, ok_bind, decide_eq_true hp, if_true]
  rw [readExecute_settled hfuel, ← hread, decide_eq_true hp]

theorem resolve_returnRun {x : String} (permission : Nat) (hx : x.toList.head? ≠ some ' ') :
    ∃ pre, resolve permission ("return run " ++ x) =
      moved pre ({ input := "return run " ++ x, redirect := some (.custom .returnRun) } :: ·)
        (resolve permission x) := by
  let c := Cursor.ofText ("return run " ++ x)
  have hfront : c.rest = "return".toList ++ ([' '] ++ ("run".toList ++ ([' '] ++ x.toList))) := by
    simp [c, Cursor.ofText]
  have hword := Cursor.expectWord_of_gap (by decide) (by decide) (by simp) hfront
  have hbehind := Cursor.rest_skip ("return".toList ++ [' ']) hfront
  have hrun := Cursor.eatKeyword_of_gap (by decide) hx hbehind
  have hbehind' := Cursor.rest_skip ("run".toList ++ [' ']) hbehind
  obtain ⟨pre, hread⟩ := readCommand_eq_resolve permission (n := 2 * c.rest.length + 1)
    (Cursor.valid_skip (Cursor.valid_skip (Cursor.valid_ofText _) _) _) hbehind' (by
      rw [fuelFor, Cursor.length_skip, Cursor.length_skip, hfront]
      simp
      omega)
  refine ⟨pre, ?_⟩
  change readCommand (privilegedLevel ≤ permission) (2 * c.rest.length + 1 + 1) c = _
  rw [readCommand_return _ hword (String.ofList_toList ..), hrun]
  have hinput : c.restText = "return run " ++ x := String.ofList_toList
  rw [hinput]
  dsimp only
  rw [hread]
  cases resolve permission x <;> rfl

/-- **What a line goes on with is read as if it stood alone.** Behind `return run` it is read to the
same stages, after one that takes over the frame; behind `execute` and its subcommands, to the same
stages after one for each subcommand, which has the subcommand's own text and forks if it names
sources. By the shift of a cursor into a longer text, and by induction on the subcommands. -/
theorem resolve_compositional {permission : Nat} (hp : privilegedLevel ≤ permission) {x : String}
    (hx : x.toList.head? ≠ some ' ') :
    (∀ stages, resolve permission ("return run " ++ x) = .ok stages ↔
      ∃ rest, resolve permission x = .ok rest ∧ stages =
        { input := "return run " ++ x, redirect := some (.custom .returnRun) } :: rest) ∧
    (∀ stages, resolve permission ("execute run " ++ x) = .ok stages ↔
      resolve permission x = .ok stages) ∧
    ∀ subs : List (String × Modifier), (∀ sub ∈ subs, IsSubcommand sub.1.toList sub.2) →
      ∀ stages, resolve permission ("execute " ++ withSubcommands subs x) = .ok stages ↔
        ∃ rest, resolve permission x = .ok rest ∧
          stages = subs.map (fun sub => stageOf sub.1.toList sub.2) ++ rest := by
  obtain ⟨pre, hreturn⟩ := resolve_returnRun permission hx
  refine ⟨fun stages => by rw [hreturn, moved_eq_ok_iff], fun stages => ?_, fun subs hsubs stages => ?_⟩
  · obtain ⟨pre, hexecute⟩ := resolve_execute hp (List.forall_mem_nil _) hx
    have hline : "execute " ++ withSubcommands [] x = "execute run " ++ x := by
      rw [withSubcommands, ← String.append_assoc]
      rfl
    rw [← hline, hexecute, moved_eq_ok_iff]
    simp
  · obtain ⟨pre, hexecute⟩ := resolve_execute hp hsubs hx
    rw [hexecute, moved_eq_ok_iff]

theorem resolve_compositional_say :
    privilegedLevel ≤ 2 ∧ "say hi".toList.head? ≠ some ' ' ∧
      (∃ stages, resolve 2 "return run say hi" = .ok stages ∧ stages.length = 2) ∧
      resolve 2 "execute as a,b  silent run say hi" = .ok
        [{ input := "as a,b", redirect := some (.modifier (.rename ["a", "b"])), forks := true },
          { input := "silent", redirect := some (.modifier .silence) },
          { input := "say hi", executable := some (.command (.say "hi")) }] := by
  have hp : privilegedLevel ≤ 2 := by decide
  have hx : "say hi".toList.head? ≠ some ' ' := by decide
  have hsay : resolve 2 "say hi" = .ok
      [{ input := "say hi", executable := some (.command (.say "hi")) }] := rfl
  have has : IsSubcommand "as a,b ".toList (.rename ["a", "b"]) :=
    @IsSubcommand.as [' '] ['a', ',', 'b'] [' '] _ (by decide) (by decide) rfl (by decide)
      fun _ hch => List.mem_singleton.mp hch
  have hsilent : IsSubcommand "silent".toList .silence := @IsSubcommand.silent [] (List.forall_mem_nil _)
  refine ⟨hp, hx, ?_, ?_⟩
  · exact ⟨_, ((resolve_compositional hp hx).1 _).mpr ⟨_, hsay, rfl⟩, rfl⟩
  · refine ((resolve_compositional hp hx).2.2 [("as a,b ", .rename ["a", "b"]), ("silent", .silence)]
      ?_ _).mpr ⟨_, hsay, rfl⟩
    simp only [List.forall_mem_cons, has, hsilent]
    simp

end Command

end Trampoline
