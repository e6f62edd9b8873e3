import Trampoline.Proofs.Command.Stages
import Trampoline.Proofs.Continuation.Lines
import Trampoline.Proofs.Numeral

/-! Commands on one line.

The scan knows no grammar. To it a quote in what a command says is one that a compound might open,
so `say it's` is held back although it needs no further line, and so is `say [hi`. Whatever else a
line consists of leaves nothing open behind it: keywords, numbers and separators have no such marks,
and a compound is balanced. The readers of the grammar call each other with less and less fuel, so
that is shown for all of them together (`hushes`). Hence a line that resolves is complete, unless it
ends in a backslash or one of the names and texts it may choose freely has such a mark
(`isComplete_of_resolve`). -/
namespace Trampoline

namespace Continuation

variable {a b cs : List Char}

/-! ### Texts that leave nothing open -/

/-- Has none of the characters that open something for the scan. -/
def Plain (cs : List Char) : Prop := ∀ c ∈ cs, c ∉ ['"', '\'', '\x7b', '[']

instance (cs : List Char) : Decidable (Plain cs) :=
  List.decidableBAll (fun c => c ∉ ['"', '\'', '\x7b', '[']) cs

/-- Nothing is open behind the text that was not open in front of it. It may close more than was
open. -/
def Quiet (cs : List Char) : Prop := ∀ d ≤ 0, ∃ d' ≤ 0, (Scan.level d).after cs = .level d'

theorem Quiet.append (ha : Quiet a) (hb : Quiet b) : Quiet (a ++ b) := by
  intro d hd
  obtain ⟨d', hd', hafter⟩ := ha d hd
  rw [Scan.after_append, hafter]
  exact hb d' hd'

theorem quiet_nil : Quiet [] := fun d hd => ⟨d, hd, rfl⟩

theorem Balanced.quiet (h : Balanced cs) : Quiet cs := fun d hd => ⟨d, hd, h.settled d⟩

theorem step_of_not_opening {c : Char} (h : c ∉ ['"', '\'', '\x7b', '[']) (d : Int) :
    (Scan.level d).step c = .level d ∨ (Scan.level d).step c = .level (d - 1) := by
  simp only [List.mem_cons, List.not_mem_nil, or_false, not_or] at h
  obtain ⟨hdouble, hsingle, hbrace, hbracket⟩ := h
  by_cases hclose : c = '\x7d' ∨ c = ']'
  · refine .inr ?_
    rcases hclose with rfl | rfl <;> rfl
  · refine .inl ?_
    rw [not_or] at hclose
    simp [Scan.step, Scan.level, hdouble, hsingle, hbrace, hbracket, hclose]

theorem Plain.quiet (h : Plain cs) : Quiet cs := by
  induction cs with
  | nil => exact quiet_nil
  | cons c cs ih =>
    obtain ⟨hc, hcs⟩ := List.forall_mem_cons.mp h
    intro d hd
    rw [Scan.after_cons]
    rcases step_of_not_opening hc d with hstep | hstep
    · rw [hstep]
      exact ih hcs d hd
    · rw [hstep]
      exact ih hcs (d - 1) (by omega)

theorem isComplete_of_quiet (h : Quiet cs) (hback : endsInBackslash cs = false) :
    isComplete cs = true := by
  obtain ⟨d, hd, hafter⟩ := h 0 (Int.le_refl 0)
  have hclosed : (scan cs).isClosed = true := by
    rw [scan_eq, hafter, Scan.isClosed, decide_eq_true (show (Scan.level d).depth ≤ 0 from hd)]
    rfl
  rw [isComplete, hback, hclosed]
  rfl

theorem plain_spaces (cs : List Char) : Plain (cs.takeWhile Cursor.isSpace) := by
  intro c hc
  have hspace : c = ' ' := beq_iff_eq.mp (List.all_eq_true.mp List.all_takeWhile c hc)
  rw [hspace]
  decide

theorem plain_of_readInt32 {w : List Char} {n : Int32} (h : Numeral.readInt32 w = some n) :
    Plain w := by
  intro c hc hopens
  obtain ⟨i, hi, -⟩ := Option.map_eq_some_iff.mp h
  rcases Numeral.mem_of_readSigned hi c hc with rfl | rfl | hdigit
  · exact absurd hopens (by decide)
  · exact absurd hopens (by decide)
  · simp only [List.mem_cons, List.not_mem_nil, or_false] at hopens
    rcases hopens with rfl | rfl | rfl | rfl <;> exact absurd hdigit (by decide)

/-- A character is a separator or stands in a piece. -/
theorem mem_split {sep c : Char} {w : List Char} (h : c ∈ w) :
    c = sep ∨ ∃ piece ∈ Text.split sep w, c ∈ piece := by
  unfold Text.split Text.splitWhere
  induction w with
  | nil => cases h
  | cons first w ih =>
    rw [List.foldr_cons]
    generalize List.foldr _ [[]] w = pieces at ih ⊢
    by_cases hsep : first = sep
    · rw [if_pos (beq_iff_eq.mpr hsep)]
      rcases List.mem_cons.mp h with rfl | hw
      · exact .inl hsep
      · refine (ih hw).imp_right ?_
        rintro ⟨piece, hpiece, hc⟩
        exact ⟨piece, List.mem_cons_of_mem _ hpiece, hc⟩
    · rw [if_neg (by rwa [beq_iff_eq])]
      rcases List.mem_cons.mp h with rfl | hw
      · cases pieces with
        | nil => exact .inr ⟨_, List.mem_cons_self, List.mem_cons_self⟩
        | cons piece rest => exact .inr ⟨_, List.mem_cons_self, List.mem_cons_self⟩
      · refine (ih hw).imp_right ?_
        rintro ⟨piece, hpiece, hc⟩
        cases pieces with
        | nil => cases hpiece
        | cons last rest =>
          rcases List.mem_cons.mp hpiece with rfl | hrest
          · exact ⟨_, List.mem_cons_self, List.mem_cons_of_mem _ hc⟩
          · exact ⟨piece, List.mem_cons_of_mem _ hrest, hc⟩

end Continuation

/-! ### Cursors -/

namespace Cursor
open Continuation (Plain Quiet)

variable {c next : Cursor} {w : List Char}

/-- The cursor moves on past a text that leaves nothing open. -/
def Passes (c next : Cursor) : Prop := ∃ read, c.rest = read ++ next.rest ∧ Quiet read

theorem Passes.trans {c₁ c₂ c₃ : Cursor} (h : Passes c₁ c₂) (h' : Passes c₂ c₃) : Passes c₁ c₃ := by
  obtain ⟨read, hread, hquiet⟩ := h
  obtain ⟨read', hread', hquiet'⟩ := h'
  exact ⟨read ++ read', by rw [hread, hread', List.append_assoc], hquiet.append hquiet'⟩

theorem Passes.quiet (h : Passes c next) (hrest : Quiet next.rest) : Quiet c.rest := by
  obtain ⟨read, hread, hquiet⟩ := h
  rw [hread]
  exact hquiet.append hrest

theorem passes_skip {read rest : List Char} (hrest : c.rest = read ++ rest) (hread : Quiet read) :
    Passes c (c.skip read.length) := by
  refine ⟨read, ?_, hread⟩
  rw [skip, hrest, List.drop_left]

theorem passes_skipSpaces (c : Cursor) : Passes c c.skipSpaces :=
  passes_skip List.takeWhile_append_dropWhile.symm (Continuation.plain_spaces c.rest).quiet

theorem passes_expectWord (h : c.expectWord = .ok (w, next)) (hw : Plain w) : Passes c next := by
  unfold expectWord word at h
  split at h
  · cases h
  · cases h
    exact (passes_skip List.takeWhile_append_dropWhile.symm hw.quiet).trans (passes_skipSpaces _)

/-- A word that says such a text is passed, a keyword for one. -/
theorem passes_word {text : String} (h : c.expectWord = .ok (w, next)) (hw : String.ofList w = text)
    (htext : Plain text.toList) : Passes c next := by
  rw [← hw, String.toList_ofList] at htext
  exact passes_expectWord h htext

theorem passes_expectNumber {n : Int32} (h : c.expectNumber Numeral.readInt32 = .ok (n, next)) :
    Passes c next := by
  unfold expectNumber number at h
  cases hword : c.expectWord with
  | error e =>
    rw [hword] at h
    cases h
  | ok read =>
    obtain ⟨w, c'⟩ := read
    simp only [hword] at h
    cases hn : Numeral.readInt32 w with
    | none =>
      rw [hn] at h
      cases h
    | some value =>
      rw [hn] at h
      cases h
      exact passes_expectWord hword (Continuation.plain_of_readInt32 hn)

theorem passes_eatKeyword {keyword : String} (h : c.eatKeyword keyword = some next)
    (hkeyword : Plain keyword.toList) : Passes c next := by
  simp only [eatKeyword] at h
  split at h
  · next hnext =>
    cases h
    have hfront := List.isPrefixOf_iff_prefix.mp (Bool.and_eq_true_iff.mp hnext).1
    exact (passes_skip (List.prefix_iff_eq_append.mp hfront).symm hkeyword.quiet).trans
      (passes_skipSpaces _)
  · cases h

theorem passes_compound {r : Record} (h : c.compound = .ok (r, next)) : Passes c next := by
  obtain ⟨text, fields, ⟨rest, hrest⟩, hderives, -, rfl⟩ := compound_ok_iff_derivable.mp h
  exact passes_skip hrest.symm hderives.balanced.quiet

end Cursor

/-! ### The grammar -/

namespace Command
open Continuation (Plain Quiet isComplete endsInBackslash isSkipped)
open Cursor (Passes)

/-- The names and texts in a stage that its line may choose freely. -/
def Modifier.freeTexts : Modifier → List String
  | .rename names => names
  | .silence => []
  | .filter condition => [condition.counter]

def Verb.freeTexts : Verb → List String
  | .say text | .fail text => [text]
  | .getCounter name | .addCounter name _ | .setCounter name _ => [name]
  | .test condition => [condition.counter]

def Executor.freeTexts : Executor → List String
  | .return _ => []
  | .function id _ | .trigger id => [id]

def freeTexts (stage : Stage standard) : List String :=
  (match stage.redirect with
    | some (.modifier m) => m.freeTexts
    | _ => []) ++
  match stage.executable with
    | some (.command v) => v.freeTexts
    | some (.custom e) => e.freeTexts
    | none => []

/-- No free text of a line opens anything. -/
def Unmarked (stages : List (Stage standard)) : Prop :=
  ∀ stage ∈ stages, ∀ text ∈ freeTexts stage, Plain text.toList

variable {c next : Cursor} {privileged : Bool} {n : Nat} {stages : List (Stage standard)}
  {stage : Stage standard} {input : String}

theorem Unmarked.tail (h : Unmarked (stage :: stages)) : Unmarked stages :=
  fun stage hs => h stage (List.mem_cons_of_mem _ hs)

/-- What a line runs at once is unmarked. -/
theorem Unmarked.command {v : Verb} (h : Unmarked [{ input, executable := some (.command v) }]) :
    ∀ text ∈ v.freeTexts, Plain text.toList := h _ List.mem_cons_self

theorem Unmarked.custom {e : Executor} (h : Unmarked [{ input, executable := some (.custom e) }]) :
    ∀ text ∈ e.freeTexts, Plain text.toList := h _ List.mem_cons_self

theorem Unmarked.modifier {m : Modifier} {forks : Bool}
    (h : Unmarked ({ input, redirect := some (.modifier m), forks } :: stages)) :
    ∀ text ∈ m.freeTexts, Plain text.toList :=
  fun text ht => h _ List.mem_cons_self text (List.mem_append_left _ ht)

theorem quiet_of_expectEnd {u : Unit} (h : expectEnd c = .ok u) : Quiet c.rest := by
  unfold expectEnd at h
  split at h
  · next hend =>
    rw [List.isEmpty_iff.mp hend]
    exact Continuation.quiet_nil
  · cases h

theorem plain_of_normalizeId {w : List Char} (h : Plain (normalizeId (String.ofList w)).toList) :
    Plain w := by
  unfold normalizeId at h
  split at h
  · rwa [String.toList_ofList] at h
  · intro c hc
    refine h c ?_
    rw [String.toList_append, String.toList_ofList]
    exact List.mem_append_right _ hc

theorem passes_expectId {id : String} (h : expectId c = .ok (id, next)) (hid : Plain id.toList) :
    Passes c next := by
  obtain ⟨⟨w, c'⟩, hw, h⟩ := ok_of_bind h
  cases h
  exact Cursor.passes_expectWord hw (plain_of_normalizeId hid)

theorem quiet_of_readCounter {v : Verb} (h : readCounter c = .ok v)
    (hfree : ∀ text ∈ v.freeTexts, Plain text.toList) : Quiet c.rest := by
  obtain ⟨⟨action, c₁⟩, haction, h⟩ := ok_of_bind h
  obtain ⟨⟨name, c₂⟩, hname, h⟩ := ok_of_bind h
  have hnamed : ∀ keyword, String.ofList action = keyword → Plain keyword.toList →
      Plain (String.ofList name).toList → Passes c c₂ := fun keyword heq hkeyword hplain =>
    (Cursor.passes_word haction heq hkeyword).trans (Cursor.passes_word hname rfl hplain)
  simp only at h
  split at h
  · next hget =>
    obtain ⟨_, hend, h⟩ := ok_of_bind h
    cases h
    exact (hnamed _ hget (by decide) (hfree _ List.mem_cons_self)).quiet (quiet_of_expectEnd hend)
  · next hadd =>
    obtain ⟨⟨delta, c₃⟩, hdelta, h⟩ := ok_of_bind h
    obtain ⟨_, hend, h⟩ := ok_of_bind h
    cases h
    have hfront := hnamed _ hadd (by decide) (hfree _ List.mem_cons_self)
    exact (hfront.trans (Cursor.passes_expectNumber hdelta)).quiet (quiet_of_expectEnd hend)
  · next hset =>
    obtain ⟨⟨value, c₃⟩, hvalue, h⟩ := ok_of_bind h
    obtain ⟨_, hend, h⟩ := ok_of_bind h
    cases h
    have hfront := hnamed _ hset (by decide) (hfree _ List.mem_cons_self)
    exact (hfront.trans (Cursor.passes_expectNumber hvalue)).quiet (quiet_of_expectEnd hend)
  · cases h

theorem passes_readCondition {expected : Bool} {condition : Condition}
    (h : readCondition expected c = .ok (condition, next)) (hfree : Plain condition.counter.toList) :
    Passes c next := by
  unfold readCondition at h
  split at h
  · cases h
  · next c₁ hkeyword =>
    obtain ⟨⟨name, c₂⟩, hname, h⟩ := ok_of_bind h
    obtain ⟨⟨least, c₃⟩, hleast, h⟩ := ok_of_bind h
    cases h
    have hfirst := Cursor.passes_eatKeyword hkeyword (by decide)
    exact (hfirst.trans (Cursor.passes_word hname rfl hfree)).trans (Cursor.passes_expectNumber hleast)

theorem quiet_of_readCall {e : Executor} (h : readCall c = .ok e)
    (hfree : ∀ text ∈ e.freeTexts, Plain text.toList) : Quiet c.rest := by
  obtain ⟨⟨id, c₁⟩, hid, h⟩ := ok_of_bind h
  simp only at h
  split at h
  · next hend =>
    cases h
    refine (passes_expectId hid (hfree _ List.mem_cons_self)).quiet ?_
    rw [List.isEmpty_iff.mp hend]
    exact Continuation.quiet_nil
  · obtain ⟨⟨arguments, c₂⟩, harguments, h⟩ := ok_of_bind h
    obtain ⟨_, hend, h⟩ := ok_of_bind h
    cases h
    have hfirst := passes_expectId hid (hfree _ List.mem_cons_self)
    have hsecond := (Cursor.passes_compound harguments).trans (Cursor.passes_skipSpaces c₂)
    exact (hfirst.trans hsecond).quiet (quiet_of_expectEnd hend)

theorem quiet_of_readTrigger {e : Executor} (h : readTrigger c = .ok e)
    (hfree : ∀ text ∈ e.freeTexts, Plain text.toList) : Quiet c.rest := by
  obtain ⟨⟨id, c₁⟩, hid, h⟩ := ok_of_bind h
  obtain ⟨_, hend, h⟩ := ok_of_bind h
  cases h
  exact (passes_expectId hid (hfree _ List.mem_cons_self)).quiet (quiet_of_expectEnd hend)

theorem quiet_of_readReturn {e : Executor} (h : readReturn c = .ok e) : Quiet c.rest := by
  unfold readReturn at h
  split at h
  · next c₁ hkeyword =>
    obtain ⟨_, hend, h⟩ := ok_of_bind h
    exact (Cursor.passes_eatKeyword hkeyword (by decide)).quiet (quiet_of_expectEnd hend)
  · obtain ⟨⟨value, c₁⟩, hvalue, h⟩ := ok_of_bind h
    obtain ⟨_, hend, h⟩ := ok_of_bind h
    exact (Cursor.passes_expectNumber hvalue).quiet (quiet_of_expectEnd hend)

theorem passes_readNames {names : List String} (h : readNames c = .ok (names, next))
    (hfree : ∀ name ∈ names, Plain name.toList) : Passes c next := by
  obtain ⟨⟨w, c₁⟩, hw, h⟩ := ok_of_bind h
  simp only at h
  split at h
  · cases h
  · cases h
    refine Cursor.passes_expectWord hw fun ch hch => ?_
    have hsplit : ch = ',' ∨ ∃ piece ∈ Text.split ',' w, ch ∈ piece := Continuation.mem_split hch
    rcases hsplit with rfl | ⟨piece, hpiece, hmem⟩
    · decide
    · have hname : String.ofList piece ∈
          ((Text.split ',' w).filter fun name => !name.isEmpty).map String.ofList := by
        refine List.mem_map_of_mem (List.mem_filter.mpr ⟨hpiece, ?_⟩)
        cases piece with
        | nil => cases hmem
        | cons first rest => rfl
      exact hfree _ hname ch (by rwa [String.toList_ofList])

/-- With `n` calls left, whatever the grammar reads without a free text that is marked leaves nothing
open. A condition was read already when the last function goes on. -/
structure Hushes (privileged : Bool) (n : Nat) : Prop where
  command : ∀ c stages, readCommand privileged n c = .ok stages → Unmarked stages → Quiet c.rest
  execute : ∀ c stages, readExecute privileged n c = .ok stages → Unmarked stages → Quiet c.rest
  conditional : ∀ start condition c stages,
    readConditional privileged n start (condition, c) = .ok stages → Unmarked stages →
      Plain condition.counter.toList ∧ Quiet c.rest

theorem Hushes.readCommand_succ (hn : Hushes privileged n)
    (h : readCommand privileged (n + 1) c = .ok stages) (hfree : Unmarked stages) :
    Quiet c.rest := by
  rw [readCommand] at h
  obtain ⟨⟨w, c'⟩, hw, h⟩ := ok_of_bind h
  have hpast : ∀ keyword, String.ofList w = keyword → Plain keyword.toList → Quiet c'.rest →
      Quiet c.rest :=
    fun keyword heq hplain => (Cursor.passes_word hw heq hplain).quiet
  simp only at h
  split at h
  · next heq =>
    -- say
    refine hpast _ heq (by decide) ?_
    split at h
    · cases h
    · cases h
      have htext := hfree.command _ List.mem_cons_self
      rw [Cursor.restText, String.toList_ofList] at htext
      exact htext.quiet
  · next heq =>
    -- counter
    obtain ⟨verb, hverb, h⟩ := ok_of_bind h
    cases h
    exact hpast _ heq (by decide) (quiet_of_readCounter hverb hfree.command)
  · next heq =>
    -- fail
    cases h
    have htext := hfree.command _ List.mem_cons_self
    rw [Cursor.restText, String.toList_ofList] at htext
    exact hpast _ heq (by decide) htext.quiet
  · next heq =>
    -- execute
    split at h
    · exact hpast _ heq (by decide) (hn.execute c' stages h hfree)
    · cases h
  · next heq =>
    -- return
    refine hpast _ heq (by decide) ?_
    split at h
    · next c'' hkeyword =>
      obtain ⟨rest, hrest, h⟩ := ok_of_bind h
      cases h
      exact (Cursor.passes_eatKeyword hkeyword (by decide)).quiet
        (hn.command c'' rest hrest hfree.tail)
    · obtain ⟨e, he, h⟩ := ok_of_bind h
      exact quiet_of_readReturn he
  · next heq =>
    -- function
    split at h
    · obtain ⟨e, he, h⟩ := ok_of_bind h
      cases h
      exact hpast _ heq (by decide) (quiet_of_readCall he hfree.custom)
    · cases h
  · next heq =>
    -- trigger
    split at h
    · obtain ⟨e, he, h⟩ := ok_of_bind h
      cases h
      exact hpast _ heq (by decide) (quiet_of_readTrigger he hfree.custom)
    · cases h
  · cases h

theorem Hushes.readExecute_succ (hn : Hushes privileged n)
    (h : readExecute privileged (n + 1) c = .ok stages) (hfree : Unmarked stages) :
    Quiet c.rest := by
  rw [readExecute] at h
  obtain ⟨⟨w, c'⟩, hw, h⟩ := ok_of_bind h
  have hpast : ∀ keyword, String.ofList w = keyword → Plain keyword.toList → Quiet c'.rest →
      Quiet c.rest :=
    fun keyword heq hplain => (Cursor.passes_word hw heq hplain).quiet
  simp only at h
  split at h
  · next heq =>
    -- run
    exact hpast _ heq (by decide) (hn.command c' stages h hfree)
  · next heq =>
    -- as
    obtain ⟨⟨names, c''⟩, hnames, h⟩ := ok_of_bind h
    obtain ⟨rest, hrest, h⟩ := ok_of_bind h
    cases h
    have hafter := hn.execute c'' rest hrest hfree.tail
    exact hpast _ heq (by decide) ((passes_readNames hnames hfree.modifier).quiet hafter)
  · next heq =>
    -- silent
    obtain ⟨rest, hrest, h⟩ := ok_of_bind h
    cases h
    exact hpast _ heq (by decide) (hn.execute c' rest hrest hfree.tail)
  · next heq =>
    -- if
    obtain ⟨⟨condition, c''⟩, hcondition, h⟩ := ok_of_bind h
    obtain ⟨hname, hafter⟩ := hn.conditional c condition c'' stages h hfree
    exact hpast _ heq (by decide) ((passes_readCondition hcondition hname).quiet hafter)
  · next heq =>
    -- unless
    obtain ⟨⟨condition, c''⟩, hcondition, h⟩ := ok_of_bind h
    obtain ⟨hname, hafter⟩ := hn.conditional c condition c'' stages h hfree
    exact hpast _ heq (by decide) ((passes_readCondition hcondition hname).quiet hafter)
  · cases h

theorem Hushes.readConditional_succ (hn : Hushes privileged n) {start : Cursor}
    {condition : Condition}
    (h : readConditional privileged (n + 1) start (condition, c) = .ok stages)
    (hfree : Unmarked stages) : Plain condition.counter.toList ∧ Quiet c.rest := by
  rw [readConditional] at h
  split at h
  · next hend =>
    cases h
    refine ⟨hfree.command _ List.mem_cons_self, ?_⟩
    rw [List.isEmpty_iff.mp hend]
    exact Continuation.quiet_nil
  · obtain ⟨rest, hrest, h⟩ := ok_of_bind h
    cases h
    exact ⟨hfree.modifier _ List.mem_cons_self, hn.execute c rest hrest hfree.tail⟩

theorem hushes (privileged : Bool) (n : Nat) : Hushes privileged n := by
  induction n with
  | zero =>
    refine ⟨fun c stages h => ?_, fun c stages h => ?_, fun start condition c stages h => ?_⟩
    · rw [readCommand] at h
      cases h
    · rw [readExecute] at h
      cases h
    · rw [readConditional] at h
      cases h
  | succ n ih =>
    exact ⟨fun _ _ => ih.readCommand_succ, fun _ _ => ih.readExecute_succ,
      fun _ _ _ _ => ih.readConditional_succ⟩

/-! ### Whole lines -/

/-- The letters that commands begin with. -/
def initials : List Char := ['s', 'c', 'f', 'e', 'r', 't']

theorem begins_of_readCommand (h : readCommand privileged n c = .ok stages) :
    ∃ first rest, c.rest = first :: rest ∧ first ∈ initials := by
  cases n with
  | zero =>
    rw [readCommand] at h
    cases h
  | succ n =>
    rw [readCommand] at h
    obtain ⟨⟨w, c'⟩, hw, h⟩ := ok_of_bind h
    have hbegins : ∀ first more, String.ofList w = String.ofList (first :: more) →
        first ∈ initials → ∃ first rest, c.rest = first :: rest ∧ first ∈ initials := by
      intro first more heq hmem
      obtain ⟨tail, htail⟩ : w <+: c.rest := by
        unfold Cursor.expectWord Cursor.word at hw
        split at hw
        · cases hw
        · cases hw
          exact List.takeWhile_prefix _
      rw [String.ofList_injective heq, List.cons_append] at htail
      exact ⟨first, more ++ tail, htail.symm, hmem⟩
    simp only at h
    split at h
    · next heq => exact hbegins 's' "ay".toList heq (by decide)
    · next heq => exact hbegins 'c' "ounter".toList heq (by decide)
    · next heq => exact hbegins 'f' "ail".toList heq (by decide)
    · next heq => exact hbegins 'e' "xecute".toList heq (by decide)
    · next heq => exact hbegins 'r' "eturn".toList heq (by decide)
    · next heq => exact hbegins 'f' "unction".toList heq (by decide)
    · next heq => exact hbegins 't' "rigger".toList heq (by decide)
    · cases h

theorem isSkipped_of_initial {first : Char} {rest : List Char} (h : first ∈ initials) :
    isSkipped (first :: rest) = false := by
  obtain ⟨hblank, hcomment⟩ : Text.isBlank first = false ∧ (first == '#') = false := by
    simp only [initials, List.mem_cons, List.not_mem_nil, or_false] at h
    rcases h with rfl | rfl | rfl | rfl | rfl | rfl <;> decide
  rw [isSkipped, Text.trim, Text.trimStart, List.dropWhile_cons_of_neg (by rw [hblank]; decide),
    Text.trimEnd_cons hblank]
  exact hcomment

/-- **A command that says nothing odd is never held back.** A line that resolves, in which no name, id
or text to be said has a quote or an opening bracket, is complete unless it ends in a backslash: a
compound behind it may have as many of both as it likes. So a script takes it as an input of its own,
whatever lines follow. -/
theorem isComplete_of_resolve {permission : Nat} (h : resolve permission input = .ok stages)
    (hfree : Unmarked stages) (hback : endsInBackslash input.toList = false) :
    isComplete input.toList = true ∧
      ∀ more, Draft.inputs none (input.toList :: more) =
        (input.toList :: (Draft.inputs none more).1, (Draft.inputs none more).2) := by
  have hcomplete : isComplete input.toList = true :=
    Continuation.isComplete_of_quiet ((hushes _ _).command _ _ h hfree) hback
  refine ⟨hcomplete, fun more => ?_⟩
  obtain ⟨first, rest, hrest, hinitial⟩ := begins_of_readCommand h
  have hbegins : isSkipped input.toList = false := by
    rw [show input.toList = first :: rest from hrest]
    exact isSkipped_of_initial hinitial
  have hfeed : Draft.feed none input.toList = (some input.toList, none) := by
    rw [Draft.feed, hbegins, hcomplete]
    rfl
  rw [Draft.inputs, hfeed]
  rfl

/-- A quote in what is said counts as one that a compound opens. -/
example : (resolve 0 "say it's").isOk = true ∧ isComplete "say it's".toList = false ∧
    (Draft.inputs none ["say it's".toList, "say hi".toList]).1 = [] := by decide +kernel

end Command

end Trampoline
