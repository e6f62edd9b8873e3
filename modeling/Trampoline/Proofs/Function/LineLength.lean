import Trampoline.Proofs.Function.LineGrammar

/-! The cap on the length of lines.

What is put together of a text's lines is measured each time a line is added, with the
backslash at its end that is still to give way; only a first part that goes on is not
measured (`measured`). A text is refused for its length if, at the first line where
something too long is measured, everything before it was admissible, and the fault tells
the length of what was measured there (`Function.compile_tooLong_iff`). So a text that
compiles has no logical line beyond the cap (`Function.length_le_of_compile`), and one
that has a logical line at the very cap compiles or not as its backslashes fall
(`Function.compile_at_cap`). -/
namespace Trampoline

namespace Compile

variable {V : Vocabulary}

/-- What is measured when a line is added to a text left open. -/
def measured (open_ : Option (List Char)) (line : List Char) : Option (List Char) :=
  if open_.isNone && continues (extend open_ line) then none else some (extend open_ line)

variable {open_ : Option (List Char)} {line text : List Char}

theorem extend_of_measured (h : measured open_ line = some text) : extend open_ line = text := by
  unfold measured at h
  split at h
  · cases h
  · exact Option.some.inj h

theorem joins_cons (open_ : Option (List Char)) (line : List Char) (rest : List (List Char)) :
    joins open_ (line :: rest) = (measured open_ line).toList ++
      joins (if continues (extend open_ line) then some (extend open_ line) else none) rest := by
  by_cases h : continues (extend open_ line) = true
  · cases open_ <;> simp [joins, measured, h]
  · cases open_ <;> simp [joins, measured, h]

theorem mem_joins_of_mem_logical {number : Nat} {cur : Option Numbered} {lines : List (List Char)}
    {logicalLine : Numbered} (h : logicalLine ∈ (logical number cur lines).1) :
    logicalLine.2 ∈ joins (cur.map Prod.snd) lines := by
  induction lines generalizing number cur with
  | nil => cases h
  | cons line rest ih =>
    unfold logical at h
    unfold joins
    dsimp only at h ⊢
    split
    · next hcontinues =>
      rw [if_pos hcontinues] at h
      exact List.mem_append_right _ (ih h)
    · next hends =>
      rw [if_neg hends] at h
      obtain rfl | h := List.mem_cons.mp h
      · exact List.mem_cons_self
      · exact List.mem_cons_of_mem _ (ih h)

/-! ### Trimmed lines -/

/-- A trimmed line ends in a character that is not blank. -/
theorem trim_concat {c : Char} (htrim : Text.trim text = text) (hc : Text.isBlank c = false) :
    Text.trim (text ++ [c]) = text ++ [c] := by
  have hstart : Text.trimStart text = text := by
    refine (List.dropWhile_suffix Text.isBlank).eq_of_length_le ?_
    have hshorter : (Text.trimEnd (Text.trimStart text)).length ≤ (Text.trimStart text).length := by
      have hdropped :=
        (List.dropWhile_suffix (l := (Text.trimStart text).reverse) Text.isBlank).length_le
      simpa [Text.trimEnd] using hdropped
    have hlength := congrArg List.length htrim
    rw [Text.trim] at hlength
    rw [hlength] at hshorter
    exact hshorter
  have hboth : Text.trimStart (text ++ [c]) = text ++ [c] := by
    unfold Text.trimStart at hstart ⊢
    cases text with
    | nil => simp [hc]
    | cons first rest =>
      have hfirst : Text.isBlank first = false := by
        by_contra h
        rw [Bool.not_eq_false] at h
        rw [List.dropWhile_cons_of_pos h] at hstart
        have hlength := (List.dropWhile_suffix (l := rest) Text.isBlank).length_le
        rw [hstart, List.length_cons] at hlength
        omega
      simp [hfirst]
  rw [Text.trim, hboth, Text.trimEnd, List.reverse_append]
  simp [hc]

/-! ### Joining up to a line that is too long -/

/-- The number and the text of a logical line, when a line is added to what was left open. -/
def added (number : Nat) (cur : Option Numbered) (line : List Char) : Numbered :=
  ((cur.map Prod.fst).getD number, extend (cur.map Prod.snd) line)

theorem logical_cons (number : Nat) (cur : Option Numbered) (line : List Char)
    (rest : List (List Char)) :
    logical number cur (line :: rest) =
      if continues (added number cur line).2 then
        logical (number + 1) (some (added number cur line)) rest
      else
        ((added number cur line) :: (logical (number + 1) none rest).1,
          (logical (number + 1) none rest).2) := rfl

/-- A line that may be added is: the text goes on, or is a logical line. -/
theorem join_cons (number : Nat) (kept : Option (Nat × Backlog Char)) (line : List Char)
    (rest : List (List Char))
    (hfits : ∀ text ∈ measured ((kept.map reading).map Prod.snd) line, text.length ≤ maxLineLength) :
    (continues (added number (kept.map reading) line).2 = true ∧
      ∃ next, reading next = added number (kept.map reading) line ∧
        join number kept (line :: rest) = join (number + 1) (some next) rest) ∨
    (continues (added number (kept.map reading) line).2 = false ∧
      join number kept (line :: rest) =
        ⟨(added number (kept.map reading) line).1, .ok (added number (kept.map reading) line).2⟩ ::
          join (number + 1) none rest) := by
  cases kept with
  | none =>
    cases hcontinues : continues (Text.trim line) with
    | true =>
      refine .inl ⟨hcontinues, (number, Backlog.empty.pushAll (Text.trim line)), ?_, ?_⟩
      · simp [reading, added, extend]
      · simp [join, hcontinues]
    | false =>
      refine .inr ⟨hcontinues, ?_⟩
      have hshort : (Text.trim line).length ≤ maxLineLength :=
        hfits _ (by simp [measured, extend, hcontinues])
      simp [join, hcontinues, overlong_eq_none hshort, added, extend]
  | some open_ =>
    obtain ⟨start, newest⟩ := open_
    have htext : (newest.tail.pushAll (Text.trim line)).toList.reverse =
        (added number (some (reading (start, newest))) line).2 :=
      reverse_tail_pushAll newest (Text.trim line)
    have hshort : ¬ maxLineLength < (newest.tail.pushAll (Text.trim line)).size := by
      have hlength := hfits (added number (some (reading (start, newest))) line).2
        (by simp [measured, added])
      rw [← htext, List.length_reverse, ← Backlog.size_eq] at hlength
      exact Nat.not_lt_of_le hlength
    have hhead := continues_reverse (newest.tail.pushAll (Text.trim line)).toList
    rw [htext] at hhead
    rw [Option.map_some, join, if_neg hshort, ← hhead]
    cases hcontinues : continues (added number (some (reading (start, newest))) line).2 with
    | true => exact .inl ⟨rfl, (start, _), Prod.ext rfl htext, if_pos rfl⟩
    | false =>
      refine .inr ⟨rfl, ?_⟩
      rw [← htext]
      exact if_neg Bool.false_ne_true

/-- A line that makes the text too long is the last. -/
theorem join_cons_overlong (number : Nat) (kept : Option (Nat × Backlog Char))
    (rest : List (List Char))
    (htext : measured ((kept.map reading).map Prod.snd) line = some text)
    (hlong : maxLineLength < text.length) :
    ∃ start, join number kept (line :: rest) = [⟨start, .error (tooLong text)⟩] := by
  have hadded := extend_of_measured htext
  cases kept with
  | none =>
    have hends : continues (Text.trim line) = false := by
      by_contra h
      simp [measured, extend, h] at htext
    have htrim : Text.trim line = text := hadded
    rw [join, hends]
    simp [htrim, overlong, Nat.not_le_of_lt hlong]
  | some open_ =>
    obtain ⟨start, newest⟩ := open_
    have hreverse : (newest.tail.pushAll (Text.trim line)).toList.reverse = text :=
      (reverse_tail_pushAll newest (Text.trim line)).trans hadded
    have hsize : maxLineLength < (newest.tail.pushAll (Text.trim line)).size := by
      rw [Backlog.size_eq, ← List.length_reverse, hreverse]
      exact hlong
    exact ⟨start, by rw [join, if_pos hsize, hreverse]⟩

/-- Up to the line that makes something too long, the joined lines are the logical lines. -/
theorem join_overlong (number : Nat) (kept : Option (Nat × Backlog Char))
    (before after : List (List Char))
    (hfits : ∀ text ∈ joins ((kept.map reading).map Prod.snd) before, text.length ≤ maxLineLength)
    (htext : measured ((logical number (kept.map reading) before).2.map Prod.snd) line = some text)
    (hlong : maxLineLength < text.length) :
    ∃ start, join number kept (before ++ line :: after) =
      (logical number (kept.map reading) before).1.map (fun line => ⟨line.1, .ok line.2⟩) ++
        [⟨start, .error (tooLong text)⟩] := by
  induction before generalizing number kept with
  | nil => exact join_cons_overlong number kept after htext hlong
  | cons part before ih =>
    rw [joins_cons] at hfits
    rw [logical_cons] at htext ⊢
    have hpart : ∀ text ∈ measured ((kept.map reading).map Prod.snd) part,
        text.length ≤ maxLineLength := fun text h =>
      hfits text (List.mem_append_left _ (Option.mem_toList.mpr h))
    obtain ⟨hcontinues, next, hnext, hjoin⟩ | ⟨hends, hjoin⟩ :=
      join_cons number kept part (before ++ line :: after) hpart
    · have hopen : continues (extend ((kept.map reading).map Prod.snd) part) = true := hcontinues
      rw [if_pos hopen] at hfits
      rw [if_pos hcontinues, ← hnext] at htext ⊢
      rw [List.cons_append, hjoin]
      refine ih (number + 1) (some next) (fun text h => ?_) htext
      refine hfits text (List.mem_append_right _ ?_)
      rw [Option.map_some, hnext] at h
      exact h
    · have hclosed : ¬ continues (extend ((kept.map reading).map Prod.snd) part) = true :=
        Bool.eq_false_iff.mp hends
      rw [if_neg hclosed] at hfits
      rw [if_neg (Bool.eq_false_iff.mp hends)] at htext ⊢
      rw [List.cons_append, hjoin]
      obtain ⟨start, hstart⟩ := ih (number + 1) none
        (fun text h => hfits text (List.mem_append_right _ h)) htext
      exact ⟨start, congrArg (_ :: ·) hstart⟩

/-- Either all that is measured fits, or there is a first line where it does not. -/
theorem fits_or_overlong (number : Nat) (cur : Option Numbered) (lines : List (List Char)) :
    (∀ text ∈ joins (cur.map Prod.snd) lines, text.length ≤ maxLineLength) ∨
      ∃ before line after text, lines = before ++ line :: after ∧
        (∀ text ∈ joins (cur.map Prod.snd) before, text.length ≤ maxLineLength) ∧
        measured ((logical number cur before).2.map Prod.snd) line = some text ∧
        maxLineLength < text.length := by
  induction lines generalizing number cur with
  | nil => exact .inl fun _ h => absurd h List.not_mem_nil
  | cons part rest ih =>
    by_cases hpart : ∀ text ∈ measured (cur.map Prod.snd) part, text.length ≤ maxLineLength
    · -- what is left open after this part
      obtain ⟨next, hnext, hlogical⟩ : ∃ next : Option Numbered,
          next.map Prod.snd = (if continues (extend (cur.map Prod.snd) part) then
            some (extend (cur.map Prod.snd) part) else none) ∧
          ∀ before, (logical number cur (part :: before)).2 =
            (logical (number + 1) next before).2 := by
        by_cases hcontinues : continues (extend (cur.map Prod.snd) part) = true
        · refine ⟨some (added number cur part), by rw [if_pos hcontinues]; rfl, fun before => ?_⟩
          rw [logical_cons, if_pos]
          exact hcontinues
        · refine ⟨none, by rw [if_neg hcontinues]; rfl, fun before => ?_⟩
          rw [logical_cons, if_neg]
          exact hcontinues
      have hjoins : ∀ before, (∀ text ∈ joins (next.map Prod.snd) before,
          text.length ≤ maxLineLength) →
          ∀ text ∈ joins (cur.map Prod.snd) (part :: before), text.length ≤ maxLineLength := by
        intro before h text htext
        rw [joins_cons, ← hnext] at htext
        obtain htext | htext := List.mem_append.mp htext
        · exact hpart text (Option.mem_toList.mp htext)
        · exact h text htext
      obtain hfits | ⟨before, line, after, text, rfl, hbefore, hmeasured, hlong⟩ :=
        ih (number + 1) next
      · exact .inl (hjoins rest hfits)
      · refine .inr ⟨part :: before, line, after, text, rfl, hjoins before hbefore, ?_, hlong⟩
        rw [hlogical]
        exact hmeasured
    · simp only [not_forall, Nat.not_le] at hpart
      obtain ⟨text, hmeasured, hlong⟩ := hpart
      exact .inr ⟨[], part, rest, text, rfl, fun _ h => absurd h List.not_mem_nil, hmeasured, hlong⟩

/-! ### Reading up to there -/

variable {parse : String → Except CommandError (Chain V)} {id : String} {number length length' : Nat}
  {excerpt excerpt' : String} {context : Option Fault.Context}

theorem readLine_ne_tooLong (parse : String → Except CommandError (Chain V)) (number : Nat)
    (text : List Char) : readLine parse number text ≠ .error (.tooLong length excerpt) := by
  unfold readLine
  split
  · simp
  · simp
  · simp
  · split <;> simp
  · split <;> simp

/-- Only joining makes a fault of a line's length, and it has no place. -/
theorem readJoined_tooLong_iff {joined : Joined} :
    readJoined parse id joined = .error ⟨.tooLong length excerpt, context⟩ ↔
      joined.text = .error (.tooLong length excerpt) ∧ context = none := by
  unfold readJoined
  cases htext : joined.text with
  | error kind => cases kind <;> simp [located, eq_comm]
  | ok text =>
    dsimp only
    cases hread : readLine parse joined.number text with
    | ok item => simp
    | error kind =>
      cases kind <;> simp [located]
      exact absurd hread (readLine_ne_tooLong parse joined.number text)

theorem mem_of_mapM_error {ε α β : Type} {f : α → Except ε β} {as : List α} {e : ε}
    (h : as.mapM f = .error e) : ∃ a ∈ as, f a = .error e := by
  induction as with
  | nil => cases h
  | cons a as ih =>
    rw [List.mapM_cons] at h
    cases ha : f a with
    | error e' =>
      rw [ha] at h
      cases h
      exact ⟨a, List.mem_cons_self, ha⟩
    | ok b =>
      cases has : as.mapM f with
      | error e' =>
        rw [ha, has] at h
        cases h
        obtain ⟨a', ha', hf⟩ := ih has
        exact ⟨a', List.mem_cons_of_mem _ ha', hf⟩
      | ok bs =>
        rw [ha, has] at h
        cases h

/-- Where everything measured fits, no fault is one of length. -/
theorem mapM_readJoined_ne_tooLong (lines : List Numbered) (left : Option Numbered) :
    (lines.map (fun line => (⟨line.1, .ok line.2⟩ : Joined)) ++ (left.map fun line =>
        (⟨line.1, .error (.continuationAtEnd line.1)⟩ : Joined)).toList).mapM
      (readJoined parse id) ≠ .error ⟨.tooLong length excerpt, context⟩ := by
  intro h
  obtain ⟨joined, hmem, hread⟩ := mem_of_mapM_error h
  obtain ⟨htext, -⟩ := readJoined_tooLong_iff.mp hread
  obtain hmem | hmem := List.mem_append.mp hmem
  · obtain ⟨line, -, rfl⟩ := List.mem_map.mp hmem
    cases htext
  · cases left with
    | none => cases hmem
    | some line =>
      cases List.mem_singleton.mp hmem
      cases htext

/-- The line that is too long is the fault if the lines before it can be read. -/
theorem mapM_readJoined_tooLong_iff (lines : List Numbered) (start : Nat) :
    (lines.map (fun line => (⟨line.1, .ok line.2⟩ : Joined)) ++
        [(⟨start, .error (.tooLong length excerpt)⟩ : Joined)]).mapM (readJoined parse id) =
      .error ⟨.tooLong length' excerpt', context⟩ ↔
      (∀ line ∈ lines, Admissible parse line.2) ∧ length' = length ∧ excerpt' = excerpt ∧
        context = none := by
  induction lines with
  | nil =>
    have hread : readJoined parse id ⟨start, .error (.tooLong length excerpt)⟩ =
        .error ⟨.tooLong length excerpt, none⟩ := rfl
    rw [List.map_nil, List.nil_append, List.mapM_cons, hread]
    constructor
    · intro h
      cases h
      exact ⟨fun _ h => absurd h List.not_mem_nil, rfl, rfl, rfl⟩
    · rintro ⟨-, rfl, rfl, rfl⟩
      rfl
  | cons line lines ih =>
    rw [List.map_cons, List.cons_append, List.mapM_cons]
    cases hread : readJoined parse id ⟨line.1, .ok line.2⟩ with
    | error fault =>
      refine iff_of_false (fun h => ?_) fun h => ?_
      · cases h
        cases (readJoined_tooLong_iff.mp hread).1
      · obtain ⟨item, hitem⟩ := (h.1 line List.mem_cons_self).reads line.1
        cases hread.symm.trans (readJoined_ok_iff.mpr hitem)
    | ok item =>
      have hline : Admissible parse line.2 := (readJoined_ok_iff.mp hread).admissible
      have hstep : ∀ rest : Except Fault (List (Option (Item V))),
          ((do let item ← Except.ok item; let items ← rest; pure (item :: items)) =
            Except.error ⟨.tooLong length' excerpt', context⟩) ↔
          rest = .error ⟨.tooLong length' excerpt', context⟩ := by
        intro rest
        cases rest <;> simp [bind, Except.bind, pure, Except.pure]
      rw [hstep, ih, List.forall_mem_cons]
      simp [hline]

end Compile

open Compile

variable {V : Vocabulary} {parse : Nat → String → Except CommandError (Chain V)} {id : String}
  {permission : Nat} {lines : List String}

namespace Function

theorem compile_eq_error_iff {fault : Fault} :
    Function.compile parse id permission lines = .error fault ↔
      (join 1 none (lines.map String.toList)).mapM (readJoined (parse permission) id) =
        .error fault := by
  unfold Function.compile
  dsimp only
  cases (join 1 none (lines.map String.toList)).mapM (readJoined (parse permission) id) <;>
    simp [bind, Except.bind, pure, Except.pure]

/-- **When a text is refused for its length.** There is a first line where what is measured is too
long, and the logical lines ended before it are admissible. The fault tells the length and the
start of what was measured there: of a logical line, or of one still to be continued, together with
its backslash. -/
theorem compile_tooLong_iff {length : Nat} {excerpt : String} {context : Option Fault.Context} :
    Function.compile parse id permission lines = .error ⟨.tooLong length excerpt, context⟩ ↔
      ∃ before line after text, lines.map String.toList = before ++ line :: after ∧
        (∀ earlier ∈ joins none before, earlier.length ≤ maxLineLength) ∧
        (∀ earlier ∈ (logical 1 none before).1, Admissible (parse permission) earlier.2) ∧
        measured ((logical 1 none before).2.map Prod.snd) line = some text ∧
        maxLineLength < text.length ∧
        length = text.length ∧ excerpt = String.ofList (text.take excerptLength) ∧ context = none := by
  rw [compile_eq_error_iff]
  constructor
  · intro h
    obtain hfits | ⟨before, line, after, text, hlines, hbefore, hmeasured, hlong⟩ :=
      fits_or_overlong 1 none (lines.map String.toList)
    · rw [join_eq 1 none _ hfits] at h
      exact absurd h (mapM_readJoined_ne_tooLong _ _)
    · obtain ⟨start, hjoin⟩ := join_overlong 1 none before after hbefore hmeasured hlong
      rw [hlines, hjoin] at h
      obtain ⟨hadmissible, hfault⟩ := (mapM_readJoined_tooLong_iff _ start).mp h
      exact ⟨before, line, after, text, hlines, hbefore, hadmissible, hmeasured, hlong, hfault⟩
  · rintro ⟨before, line, after, text, hlines, hbefore, hadmissible, hmeasured, hlong, hfault⟩
    obtain ⟨start, hjoin⟩ := join_overlong 1 none before after hbefore hmeasured hlong
    rw [hlines, hjoin]
    exact (mapM_readJoined_tooLong_iff _ start).mpr ⟨hadmissible, hfault⟩

/-- Nothing that is measured in a text that compiles is too long. -/
theorem fits_of_compile {f : Function V} (h : Function.compile parse id permission lines = .ok f) :
    ∀ text ∈ joins none (lines.map String.toList), text.length ≤ maxLineLength := by
  obtain hfits | ⟨before, line, after, text, hlines, hbefore, hmeasured, hlong⟩ :=
    fits_or_overlong 1 none (lines.map String.toList)
  · exact hfits
  · obtain ⟨start, hjoin⟩ := join_overlong 1 none before after hbefore hmeasured hlong
    obtain ⟨items, hitems, -⟩ := Command.ok_of_bind h
    rw [hlines, hjoin] at hitems
    obtain ⟨item, -, hread⟩ := exists_mem_of_forall₂ (mapM_ok_iff.mp hitems)
      (List.mem_append_right _ List.mem_cons_self)
    cases hread

/-- A text that compiles has no logical line beyond the cap. -/
theorem length_le_of_compile {f : Function V}
    (h : Function.compile parse id permission lines = .ok f) :
    ∀ line ∈ (logical 1 none (lines.map String.toList)).1, line.2.length ≤ maxLineLength :=
  fun _ hline => fits_of_compile h _ (mem_joins_of_mem_logical hline)

/-- **At the cap, the backslashes decide.** A logical line that just reaches the cap is not refused
for its length if it is written as one line; written with a backslash at its end that an empty line
takes away, after a first line that only goes on, it is. -/
theorem compile_at_cap {text : List Char} (hlength : text.length = maxLineLength)
    (htrim : Text.trim text = text) (hends : continues text = false) :
    (logical 1 none [text] = ([(1, text)], none) ∧
      logical 1 none [['\\'], text ++ ['\\'], []] = ([(1, text)], none)) ∧
    (∀ length excerpt context,
      Function.compile parse id permission [String.ofList text] ≠
        .error ⟨.tooLong length excerpt, context⟩) ∧
    Function.compile parse id permission ["\\", String.ofList (text ++ ['\\']), ""] =
      .error ⟨.tooLong (maxLineLength + 1) (String.ofList (text.take excerptLength)), none⟩ := by
  have hfirst : extend none text = text := htrim
  have hsecond : extend (some ['\\']) (text ++ ['\\']) = text ++ ['\\'] :=
    trim_concat htrim (by decide)
  have hthird : extend (some (text ++ ['\\'])) [] = text := by simp [extend, Text.trim,
    Text.trimStart, Text.trimEnd]
  have hcontinues : continues (text ++ ['\\']) = true := by simp [continues]
  have hopen : logical 1 none [['\\']] = ([], some (1, ['\\'])) := by decide
  refine ⟨⟨?_, ?_⟩, fun length excerpt context h => ?_, ?_⟩
  · simp [logical, hfirst, hends]
  · have hslash : extend none ['\\'] = ['\\'] := by decide
    have hmark : continues ['\\'] = true := by decide
    simp [logical, hslash, hmark, hsecond, hcontinues, hthird, hends]
  · obtain ⟨before, line, after, measuredText, hlines, -, -, hmeasured, hlong, -⟩ :=
      compile_tooLong_iff.mp h
    rw [List.map_singleton, String.toList_ofList] at hlines
    cases before with
    | cons _ before => simp at hlines
    | nil =>
      obtain ⟨rfl, -⟩ := List.cons.inj hlines
      have hsame : text = measuredText := hfirst.symm.trans (extend_of_measured hmeasured)
      rw [← hsame, hlength] at hlong
      exact absurd hlong (Nat.lt_irrefl _)
  · refine compile_tooLong_iff.mpr
      ⟨[['\\']], text ++ ['\\'], [[]], text ++ ['\\'], ?_, ?_, ?_, ?_, ?_, ?_, ?_, rfl⟩
    · simp
    · have hnothing : joins none [['\\']] = [] := by decide
      simp [hnothing]
    · simp [hopen]
    · simp [hopen, measured, hsecond]
    · simp [hlength]
    · simp [hlength]
    · rw [List.take_append_of_le_length]
      rw [hlength]
      decide

end Function

end Trampoline
