import Mathlib.Data.List.DropRight
import Trampoline.Prompt
import Trampoline.Proofs.Continuation.Nesting

/-! Compounds over several lines.

What is joined of some lines ends in blanks, or in a backslash that is to go; what stands before
those stays where it is when more lines are joined (`prefix_join`). So what was joined of the first
lines of a compound is, but for its end, a proper beginning of that compound, and the scan finds it
open. A script and the prompt take it as one input with its last line
(`compound_held_until_closed`). -/
namespace Trampoline

namespace Text

/-- Blanks at the end are the end's business only. -/
theorem trimEnd_append (a b : List Char) :
    trimEnd (a ++ b) = if trimEnd b = [] then trimEnd a else a ++ trimEnd b := by
  simp only [trimEnd, List.reverse_append, List.dropWhile_append, List.isEmpty_iff,
    List.reverse_eq_nil_iff]
  split <;> simp

theorem trimEnd_singleton {c : Char} (h : isBlank c = false) : trimEnd [c] = [c] := by
  simp [trimEnd, h]

theorem trimEnd_concat {c : Char} (h : isBlank c = false) (cs : List Char) :
    trimEnd (cs ++ [c]) = cs ++ [c] := by
  rw [trimEnd_append, trimEnd_singleton h, if_neg (List.cons_ne_nil c [])]

theorem trimEnd_cons {c : Char} (h : isBlank c = false) (cs : List Char) :
    trimEnd (c :: cs) = c :: trimEnd cs := by
  rw [← List.singleton_append, trimEnd_append, trimEnd_singleton h]
  split
  · next hrest => rw [hrest]
  · rfl

theorem trimEnd_trimEnd (cs : List Char) : trimEnd (trimEnd cs) = trimEnd cs := by
  rw [trimEnd, trimEnd, List.reverse_reverse, List.dropWhile_idempotent]

/-- What is trimmed off are blanks. -/
theorem exists_blanks (cs : List Char) :
    ∃ blanks, cs = trimEnd cs ++ blanks ∧ ∀ c ∈ blanks, isBlank c = true := by
  refine ⟨(cs.reverse.takeWhile isBlank).reverse, ?_, fun c hc => ?_⟩
  · rw [trimEnd, ← List.reverse_append, List.takeWhile_append_dropWhile, List.reverse_reverse]
  · exact List.all_eq_true.mp List.all_takeWhile c (List.mem_reverse.mp hc)

end Text

namespace Continuation

variable {t u cs p x line : List Char}

/-! ### Blanks at the end -/

/-- No blank is a quote or a bracket. -/
theorem ne_mark_of_isBlank {c : Char} (h : Text.isBlank c = true) :
    ∀ mark ∈ ['"', '\'', '\x7b', '[', '\x7d', ']'], c ≠ mark := by
  rintro mark hmark rfl
  simp only [List.mem_cons, List.not_mem_nil, or_false] at hmark
  rcases hmark with rfl | rfl | rfl | rfl | rfl | rfl <;> exact absurd h (by decide)

theorem depth_step_blank {c : Char} (h : Text.isBlank c = true) (s : Scan) :
    (s.step c).depth = s.depth := by
  have hne := ne_mark_of_isBlank h
  simp only [List.forall_mem_cons] at hne
  unfold Scan.step
  repeat' split
  all_goals first | rfl | simp_all

theorem depth_after_blanks {blanks : List Char} (h : ∀ c ∈ blanks, Text.isBlank c = true) (s : Scan) :
    (s.after blanks).depth = s.depth := by
  induction blanks generalizing s with
  | nil => rfl
  | cons c blanks ih =>
    rw [Scan.after_cons, ih fun c' hc' => h c' (List.mem_cons_of_mem _ hc'),
      depth_step_blank (h c List.mem_cons_self)]

theorem depth_scan_trimEnd (cs : List Char) : (scan (Text.trimEnd cs)).depth = (scan cs).depth := by
  obtain ⟨blanks, heq, hblanks⟩ := Text.exists_blanks cs
  calc (scan (Text.trimEnd cs)).depth
      = ((scan (Text.trimEnd cs)).after blanks).depth := (depth_after_blanks hblanks _).symm
    _ = (scan (Text.trimEnd cs ++ blanks)).depth := by
        rw [scan_eq, scan_eq, Scan.after_append]
    _ = (scan cs).depth := by rw [← heq]

/-- As long as a bracket is open the input goes on. -/
theorem isComplete_of_depth_pos (h : 1 ≤ (scan cs).depth) : isComplete cs = false := by
  have hopen : (scan cs).isClosed = false := by
    rw [Scan.isClosed, decide_eq_false (by omega), Bool.false_and]
  rw [isComplete, hopen, Bool.and_false]

/-! ### Joining lines -/

/-- The beginning of an input, up to a character that is neither a blank nor a backslash, stays with
the space behind it. -/
theorem prefix_join (hp : Text.trimEnd p = p) (hlast : p.getLast? ≠ some '\\')
    (h : p ++ [' '] <+: x) : p ++ [' '] <+: join x line := by
  obtain ⟨y, rfl⟩ := h
  have hspace : Text.trimEnd (' ' :: y) = if Text.trimEnd y = [] then [] else ' ' :: Text.trimEnd y := by
    rw [← List.singleton_append, Text.trimEnd_append]
    rfl
  have htrim : Text.trimEnd (p ++ [' '] ++ y) =
      if Text.trimEnd y = [] then p else p ++ ' ' :: Text.trimEnd y := by
    rw [List.append_assoc, List.singleton_append, Text.trimEnd_append, hspace, hp]
    by_cases hy : Text.trimEnd y = []
    · simp [hy]
    · simp [hy]
  rw [join, htrim]
  by_cases hy : Text.trimEnd y = []
  · simp only [hy, if_true, beq_iff_eq, if_neg hlast]
    exact List.prefix_append _ _
  · simp only [hy, if_false]
    split
    · rw [List.dropLast_append_of_ne_nil (List.cons_ne_nil _ _), List.dropLast_cons_of_ne_nil hy]
      exact ⟨(Text.trimEnd y).dropLast ++ Text.trimStart line, by simp⟩
    · exact ⟨Text.trimEnd y ++ ' ' :: Text.trimStart line, by simp⟩

/-- What a line is joined to, if it does not end in a backslash. -/
theorem prefix_join_self (h : endsInBackslash x = false) :
    Text.trimEnd x ++ [' '] <+: join x line := by
  have hlast : ¬ ((Text.trimEnd x).getLast? == some '\\') = true := by
    rw [show ((Text.trimEnd x).getLast? == some '\\') = false from h]
    exact Bool.false_ne_true
  rw [join]
  simp only [if_neg hlast]
  exact List.prefix_append _ _

theorem prefix_joined {lines : List (List Char)} (hp : Text.trimEnd p = p)
    (hlast : p.getLast? ≠ some '\\') (h : p ++ [' '] <+: x) : p ++ [' '] <+: lines.foldl join x := by
  induction lines generalizing x with
  | nil => exact h
  | cons line lines ih => exact ih (prefix_join hp hlast h)

/-- Joining leaves the first character alone. -/
theorem head?_join (h : x.head? = some '\x7b') : (join x line).head? = some '\x7b' := by
  obtain ⟨x, rfl⟩ : ∃ y, x = '\x7b' :: y := List.head?_eq_some_iff.mp h
  rw [join, Text.trimEnd_cons (by decide)]
  split
  · next hlast =>
    cases hx : Text.trimEnd x with
    | nil =>
      rw [hx] at hlast
      exact absurd hlast (by decide)
    | cons c rest => rfl
  · rfl

/-! ### A text that stays open up to its end -/

/-- A text that begins with a brace, is open at every proper beginning, and complete as a whole. -/
structure OpenUpToEnd (t : List Char) : Prop where
  before : ∀ u, u <+: t → u ≠ [] → u ≠ t → 1 ≤ (scan u).depth
  complete : isComplete t = true

/-- What was joined of its first lines goes on. -/
theorem OpenUpToEnd.goes_on {lines : List (List Char)} (h : OpenUpToEnd t)
    (hx : x.head? = some '\x7b') (ht : (line :: lines).foldl join x = t) : isComplete x = false := by
  cases hback : endsInBackslash x with
  | true => rw [isComplete, hback]; rfl
  | false =>
    have hp : Text.trimEnd x ≠ [] := by
      obtain ⟨y, rfl⟩ : ∃ y, x = '\x7b' :: y := List.head?_eq_some_iff.mp hx
      rw [Text.trimEnd_cons (by decide)]
      exact List.cons_ne_nil _ _
    have hlast : (Text.trimEnd x).getLast? ≠ some '\\' := beq_eq_false_iff_ne.mp hback
    have hbegin : Text.trimEnd x ++ [' '] <+: t := by
      rw [← ht, List.foldl_cons]
      exact prefix_joined (Text.trimEnd_trimEnd x) hlast (prefix_join_self hback)
    have hproper : Text.trimEnd x ≠ t := by
      intro heq
      have hlength := hbegin.length_le
      rw [← heq, List.length_append, List.length_singleton] at hlength
      omega
    apply isComplete_of_depth_pos
    rw [← depth_scan_trimEnd]
    exact h.before _ ((List.prefix_append _ _).trans hbegin) hp hproper

theorem OpenUpToEnd.settle_held {lines : List (List Char)} (h : OpenUpToEnd t)
    (hx : x.head? = some '\x7b') (ht : lines.foldl join x = t) (more : List (List Char)) :
    ((settle x).1.toList ++ (inputs (settle x).2 (lines ++ more)).1,
        (inputs (settle x).2 (lines ++ more)).2) =
      (t :: (inputs none more).1, (inputs none more).2) := by
  induction lines generalizing x with
  | nil =>
    have hx' : x = t := ht
    rw [hx', settle, if_pos h.complete]
    rfl
  | cons line lines ih =>
    rw [settle, h.goes_on hx ht]
    exact ih (head?_join hx) ht

/-- A script takes it as one input. -/
theorem OpenUpToEnd.inputs_held {lines : List (List Char)} (h : OpenUpToEnd t)
    (hx : x.head? = some '\x7b') (ht : lines.foldl join x = t) (more : List (List Char)) :
    inputs none (x :: lines ++ more) = (t :: (inputs none more).1, (inputs none more).2) := by
  have hbegins : isSkipped x = false := by
    obtain ⟨y, rfl⟩ : ∃ y, x = '\x7b' :: y := List.head?_eq_some_iff.mp hx
    rw [isSkipped, Text.trim, Text.trimStart, List.dropWhile_cons_of_neg (by decide),
      Text.trimEnd_cons (by decide)]
    rfl
  have hfeed : feed none x = settle x := by
    rw [feed, hbegins]
    rfl
  rw [List.cons_append, inputs, hfeed]
  exact h.settle_held hx ht more

end Continuation

/-! ### The prompt -/

namespace Prompt

/-- Goes on with more readings, unless the loop has stopped. -/
def goOn (after : Status × Prompt) (more : List Reading) : Status × Prompt :=
  match after with
  | (.waiting, p) => p.feed more
  | stopped => stopped

theorem feed_cons (p : Prompt) (reading : Reading) (more : List Reading) :
    p.feed (reading :: more) = goOn (p.ask.read reading) more := rfl

/-- What is typed, line by line. -/
def typed (lines : List (List Char)) : List Reading := lines.map fun line => .line (String.ofList line)

/-- The prompt after questions that led to nothing yet. -/
def Asked (p q : Prompt) : Prop :=
  q = { p with asked := q.asked, shown := q.shown, pending := q.pending }

theorem Asked.trans {p q r : Prompt} (h : Asked p q) (h' : Asked q r) : Asked p r := by
  unfold Asked at h h' ⊢
  rw [h', h]

theorem asked_ask (p : Prompt) : Asked p p.ask := by
  unfold ask Asked
  cases p.plain <;> rfl

theorem pending_ask (p : Prompt) : p.ask.pending = p.pending := by
  unfold ask
  cases p.plain <;> rfl

open Continuation (OpenUpToEnd join)

/-- The prompt takes it as one input. -/
theorem take_held {t x : List Char} {lines : List (List Char)} (h : OpenUpToEnd t)
    (hx : x.head? = some '\x7b') (ht : lines.foldl join x = t) (p : Prompt) (more : List Reading) :
    ∃ q, Asked p q ∧ goOn (p.take x) (typed lines ++ more) = goOn (q.take t) more := by
  induction lines generalizing x p with
  | nil =>
    have hx' : x = t := ht
    exact ⟨p, rfl, by rw [hx']; rfl⟩
  | cons line lines ih =>
    have hopen : p.take x = (.waiting, { p with pending := some x }) := by
      rw [take, h.goes_on hx ht]
      rfl
    generalize hp' : { p with pending := some x } = p' at hopen
    have hread : p'.ask.read (.line (String.ofList line)) = p'.ask.take (join x line) := by
      have hpending : p'.ask.pending = some x := by rw [pending_ask, ← hp']
      unfold read
      rw [hpending]
      simp only [String.toList_ofList]
    obtain ⟨q, hq, hgo⟩ := ih (Continuation.head?_join hx) ht p'.ask
    have hp : Asked p p' := by rw [← hp']; rfl
    refine ⟨q, (hp.trans (asked_ask p')).trans hq, ?_⟩
    rw [hopen, ← hgo, ← hread]
    exact feed_cons p' _ _

end Prompt

namespace Continuation

/-! ### Compounds -/

theorem openUpToEnd_of_inside {inner : List Char} (h : Inside inner) :
    OpenUpToEnd (inner ++ ['\x7d']) where
  before u hu hne hproper := by
    have hinner : u <+: inner := (List.prefix_concat_iff.mp hu).resolve_left hproper
    have hbelow := h.below hinner hne 0
    rw [scan_eq]
    omega
  complete := by
    have hback : endsInBackslash (inner ++ ['\x7d']) = false := by
      rw [endsInBackslash, Text.trimEnd_concat (by decide), List.getLast?_concat]
      rfl
    have hclosed : (scan (inner ++ ['\x7d'])).isClosed = true := by
      rw [scan_eq, (h.close (.inl rfl)).settled]
      rfl
    rw [isComplete, hback, hclosed]
    rfl

/-- A text that is read as a compound and begins with its brace. -/
theorem exists_inside_of_read {text : String} {r : Record} {c : Cursor}
    (hbrace : text.toList.head? = some '\x7b') (hread : (Cursor.ofText text).compound = .ok (r, c))
    (hend : c.atEnd = true) : ∃ inner, text.toList = inner ++ ['\x7d'] ∧ Inside inner := by
  obtain ⟨written, fields, ⟨rest, hrest⟩, hderives, -, rfl⟩ := Cursor.compound_ok_iff_derivable.mp hread
  have hrest' : written ++ rest = text.toList := hrest
  have hnone : rest = [] := by
    have hdrop : (text.toList.drop written.length).isEmpty = true := hend
    rw [← hrest', List.drop_left] at hdrop
    exact List.isEmpty_iff.mp hdrop
  obtain ⟨s, inner, hs, rfl, hinner⟩ := hderives.exists_inside
  rw [hnone, List.append_nil] at hrest'
  cases s with
  | nil => exact ⟨inner, hrest'.symm, hinner⟩
  | cons space s =>
    rw [← hrest', List.cons_append, List.head?_cons, hs space List.mem_cons_self] at hbrace
    exact absurd hbrace (by decide)

/-- **A compound is one input.** The scan finds a text that is a compound from its first character to
its last complete, and every proper beginning of it but the empty one not; and its count of open
brackets never exceeds the characters it has seen. So however the compound is typed, over several
lines joined as lines are, it is one input, which a script and the prompt hold back up to its last
line and take with it. -/
theorem compound_held_until_closed {text : String} {r : Record} {c : Cursor}
    (hbrace : text.toList.head? = some '\x7b') (hread : (Cursor.ofText text).compound = .ok (r, c))
    (hend : c.atEnd = true) :
    isComplete text.toList = true ∧
      (∀ u, u <+: text.toList → u ≠ [] → u ≠ text.toList → isComplete u = false) ∧
      (∀ u, u <+: text.toList → 0 ≤ (scan u).depth ∧ (scan u).depth ≤ u.length) ∧
      ∀ first lines, first.head? = some '\x7b' → lines.foldl join first = text.toList →
        (∀ more, Draft.inputs none (first :: lines ++ more) =
          (text.toList :: (Draft.inputs none more).1, (Draft.inputs none more).2)) ∧
        ∀ p more, p.pending = none → ∃ q, Prompt.Asked p q ∧
          p.feed (Prompt.typed (first :: lines) ++ more) = Prompt.goOn (q.take text.toList) more := by
  obtain ⟨inner, htext, hinner⟩ := exists_inside_of_read hbrace hread hend
  have hopen : OpenUpToEnd text.toList := by
    rw [htext]
    exact openUpToEnd_of_inside hinner
  have hbalanced : Balanced text.toList := by
    rw [htext]
    exact hinner.close (.inl rfl)
  refine ⟨hopen.complete, fun u hu hne hproper => isComplete_of_depth_pos (hopen.before u hu hne hproper),
    fun u hu => ⟨hbalanced.above 0 u hu, ?_⟩, fun first lines hfirst hjoined => ⟨fun more => ?_, ?_⟩⟩
  · have hle := natAbs_depth_scan u
    omega
  · have hdraft := Draft.inputs_ofText none (first :: lines ++ more)
    have hmore := Draft.inputs_ofText none more
    rw [Option.map_none] at hdraft hmore
    rw [hdraft, hmore, hopen.inputs_held hfirst hjoined]
  · intro p more hpending
    have hread : p.ask.read (.line (String.ofList first)) = p.ask.take first := by
      have hpending' : p.ask.pending = none := by rw [Prompt.pending_ask, hpending]
      unfold Prompt.read
      rw [hpending']
      simp only [String.toList_ofList]
    obtain ⟨q, hq, hgo⟩ := Prompt.take_held hopen hfirst hjoined p.ask more
    refine ⟨q, (Prompt.asked_ask p).trans hq, ?_⟩
    rw [← hgo, ← hread]
    exact Prompt.feed_cons p _ _

/-- A compound with a brace and an escape in a quoted text, typed on two lines. -/
theorem compound_held_until_closed_on_two_lines :
    let text := "\x7ba: [1, \"x\x7d\\\"\"], b: \x7b\x7d\x7d"
    text.toList.head? = some '\x7b' ∧
      (∃ r c, (Cursor.ofText text).compound = .ok (r, c) ∧ c.atEnd = true) ∧
      ["b: \x7b\x7d\x7d".toList].foldl join "\x7ba: [1, \"x\x7d\\\"\"],".toList = text.toList ∧
      Draft.inputs none ["\x7ba: [1, \"x\x7d\\\"\"],".toList, "b: \x7b\x7d\x7d".toList] =
        ([text.toList], none) := by
  intro text
  have hread : ∃ r c, (Cursor.ofText text).compound = .ok (r, c) ∧ c.atEnd = true := by
    have hreads : ((Cursor.ofText text).compound.toOption.any fun read => read.2.atEnd) = true := by
      decide +kernel
    cases hcompound : (Cursor.ofText text).compound with
    | error e =>
      rw [hcompound] at hreads
      exact absurd hreads Bool.false_ne_true
    | ok read =>
      rw [hcompound] at hreads
      exact ⟨read.1, read.2, rfl, hreads⟩
  obtain ⟨r, c, hok, hend⟩ := hread
  have hjoined : ["b: \x7b\x7d\x7d".toList].foldl join "\x7ba: [1, \"x\x7d\\\"\"],".toList =
      text.toList := by decide +kernel
  exact ⟨by decide +kernel, ⟨r, c, hok, hend⟩, hjoined,
    ((compound_held_until_closed (by decide +kernel) hok hend).2.2.2 _ _ (by decide +kernel) hjoined).1 []⟩

end Continuation

end Trampoline
