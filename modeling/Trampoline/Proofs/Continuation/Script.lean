import Trampoline.Proofs.Continuation.Lines

/-! A script and the same lines typed.

Both join lines into the same inputs, for what is open does not tell where the lines came from, and
an evaluation reads nothing of what the prompt shows, asks and takes (`submit_above`). They differ in
one thing: a script leaves out a line that is blank where an input could begin, and the prompt also
an input that is blank once it is joined. Such an input comes only of lines of nothing but blanks and
backslashes (`solid_of_mem_inputs`); with that exception the two evaluate the same inputs
(`typed_as_script`). -/
namespace Trampoline

namespace Continuation

variable {c : Char} {cs input line : List Char}

/-! ### Blank inputs -/

def isBlank (cs : List Char) : Bool := (Text.trim cs).isEmpty

/-- Neither a blank nor the backslash that a line goes on with. -/
def Solid (c : Char) : Prop := Text.isBlank c = false ∧ c ≠ '\\'

theorem mem_trimEnd (h : Text.isBlank c = false) (hc : c ∈ cs) : c ∈ Text.trimEnd cs := by
  obtain ⟨blanks, heq, hblanks⟩ := Text.exists_blanks cs
  rw [heq, List.mem_append] at hc
  cases hc with
  | inl hc => exact hc
  | inr hc => exact absurd (hblanks c hc) (by simp [h])

theorem mem_trimStart (h : Text.isBlank c = false) (hc : c ∈ cs) : c ∈ Text.trimStart cs := by
  rw [← List.takeWhile_append_dropWhile (p := Text.isBlank) (l := cs), List.mem_append] at hc
  cases hc with
  | inl hc => exact absurd (List.all_eq_true.mp List.all_takeWhile c hc) (by simp [h])
  | inr hc => exact hc

theorem isBlank_eq_false (h : Text.isBlank c = false) (hc : c ∈ cs) : isBlank cs = false := by
  have hmem : c ∈ Text.trim cs := mem_trimEnd h (mem_trimStart h hc)
  rw [isBlank, List.isEmpty_eq_false_iff]
  exact List.ne_nil_of_mem hmem

/-- What is joined keeps the solid characters of both. -/
theorem mem_join (h : Solid c) (hc : c ∈ input ∨ c ∈ line) : c ∈ join input line := by
  rw [join, List.mem_append]
  cases hc with
  | inr hc => exact .inr (mem_trimStart h.1 hc)
  | inl hc =>
    left
    have hmem := mem_trimEnd h.1 hc
    split
    · next hlast =>
      obtain ⟨before, hbefore⟩ := List.getLast?_eq_some_iff.mp (beq_iff_eq.mp hlast)
      rw [hbefore, List.mem_append, List.mem_singleton] at hmem
      rw [hbefore, List.dropLast_concat]
      exact hmem.resolve_right h.2
    · exact List.mem_append_left _ hmem

theorem isSkipped_eq_isBlank (h : (Text.trim line).head? ≠ some '#') : isSkipped line = isBlank line := by
  rw [isSkipped, isBlank]
  cases hline : Text.trim line with
  | nil => rfl
  | cons c rest =>
    rw [hline] at h
    have hne : c ≠ '#' := fun heq => h (congrArg some heq)
    simpa using hne

theorem step_blank (h : Text.isBlank c = true) : Scan.step {} c = {} := by
  have hne := ne_mark_of_isBlank h
  simp only [List.forall_mem_cons] at hne
  simp [Scan.step, hne]

theorem scan_of_blanks (h : ∀ c ∈ line, Text.isBlank c = true) : scan line = {} := by
  rw [scan]
  induction line with
  | nil => rfl
  | cons c line ih =>
    rw [List.forall_mem_cons] at h
    rw [List.foldl_cons, step_blank h.1]
    exact ih h.2

/-- A blank line is complete: the prompt passes over it as a script does. -/
theorem isComplete_of_isBlank (h : isBlank line = true) : isComplete line = true := by
  have hblanks : ∀ c ∈ line, Text.isBlank c = true := by
    intro c hc
    by_contra hsolid
    rw [isBlank_eq_false (Bool.eq_false_iff.mpr hsolid) hc] at h
    exact Bool.false_ne_true h
  have hback : endsInBackslash line = false := by
    have htrim : Text.trimEnd line = [] := by
      rw [Text.trimEnd, List.reverse_eq_nil_iff, List.dropWhile_eq_nil_iff]
      exact fun c hc => hblanks c (List.mem_reverse.mp hc)
    rw [endsInBackslash, htrim]
    rfl
  rw [isComplete, hback, scan_of_blanks hblanks]
  rfl

/-! ### What a script's inputs are made of -/

theorem settle_eq (input : List Char) :
    settle input = (some input, none) ∧ isComplete input = true ∨
      settle input = (none, some input) ∧ isComplete input = false := by
  rw [settle]
  cases isComplete input with
  | true => exact .inl ⟨rfl, rfl⟩
  | false => exact .inr ⟨rfl, rfl⟩

/-- A text with a character that is neither a blank nor a backslash. -/
def HasSolid (cs : List Char) : Prop := ∃ c ∈ cs, Solid c

theorem HasSolid.not_blank (h : HasSolid cs) : isBlank cs = false := by
  obtain ⟨c, hc, hsolid⟩ := h
  exact isBlank_eq_false hsolid.1 hc

theorem HasSolid.settled (h : HasSolid cs) :
    (∀ input ∈ (settle cs).1, HasSolid input) ∧ ∀ input ∈ (settle cs).2, HasSolid input := by
  rcases settle_eq cs with ⟨heq, -⟩ | ⟨heq, -⟩ <;> simp [heq, h]

theorem isSkipped_of_isBlank (h : isBlank line = true) : isSkipped line = true := by
  rw [isSkipped, List.isEmpty_iff.mp h]

theorem solid_of_feed {pending : Option (List Char)} (hpending : ∀ input ∈ pending, HasSolid input)
    (hline : isBlank line = true ∨ HasSolid line) :
    (∀ input ∈ (feed pending line).1, HasSolid input) ∧
      ∀ input ∈ (feed pending line).2, HasSolid input := by
  cases pending with
  | some input =>
    obtain ⟨c, hc, hsolid⟩ := hpending input rfl
    have hjoin : HasSolid (join input line) := ⟨c, mem_join hsolid (.inl hc), hsolid⟩
    exact hjoin.settled
  | none =>
    rw [feed]
    split
    · simp
    · next hbegins =>
      exact (hline.resolve_left fun hblank => hbegins (isSkipped_of_isBlank hblank)).settled

/-- If every line that is not blank has a character beside blanks and backslashes, so has every
input. -/
theorem solid_of_mem_inputs {pending : Option (List Char)} {lines : List (List Char)}
    (hpending : ∀ input ∈ pending, HasSolid input)
    (hlines : ∀ line ∈ lines, isBlank line = true ∨ HasSolid line) :
    ∀ input ∈ (inputs pending lines).1, HasSolid input := by
  induction lines generalizing pending with
  | nil => simp [inputs]
  | cons line lines ih =>
    rw [List.forall_mem_cons] at hlines
    obtain ⟨htaken, hleft⟩ := solid_of_feed hpending hlines.1
    intro input hinput
    rw [inputs, List.mem_append, Option.mem_toList] at hinput
    cases hinput with
    | inl hinput => exact htaken input hinput
    | inr hinput => exact ih hleft hlines.2 input hinput

end Continuation

namespace Prompt

open Continuation (isBlank isComplete settle inputs join isSkipped)

/-! ### What an evaluation does not read -/

/-- A prompt as it is when it began on what another one shows, asked, took and left open. -/
def above (q p : Prompt) : Prompt :=
  { q with pending := p.pending, shown := q.shown ++ p.shown, asked := p.asked, history := p.history }

/-- A prompt without what it shows, asked, took and left open. -/
def core (p : Prompt) : Prompt := { p.wipe with pending := none }

theorem core_above (q p : Prompt) : (q.above p).core = q.core := rfl

theorem session_above (q p : Prompt) : (q.above p).session = q.session := rfl

theorem above_core (p : Prompt) : p.core.above p = p := rfl

theorem echoes_above (q p : Prompt) (echoes : List String) :
    echoes.foldl (fun p line => p.err (line ++ "\n")) (q.above p) =
      (echoes.foldl (fun p line => p.err (line ++ "\n")) q).above p := by
  induction echoes generalizing q with
  | nil => rfl
  | cons line echoes ih => exact ih (q.err (line ++ "\n"))

theorem resume_above (q p : Prompt) (s : Session) : (q.above p).resume s = (q.resume s).above p :=
  echoes_above { q with session := { s with recorder := s.recorder.takeEchoes.2 } } p
    s.recorder.takeEchoes.1

theorem report_above (q p : Prompt) (result : Report × Session) :
    (q.above p).report result = ((q.report result).1, (q.report result).2.above p) := by
  simp only [report, resume_above]
  split <;> rfl

theorem evalDirective_above (q p : Prompt) (d : Directive) :
    (q.above p).evalDirective d = ((q.evalDirective d).1, (q.evalDirective d).2.above p) := by
  cases d with
  | load path =>
    have hload : (q.above p).session.loadFolder (q.above p).files path =
        q.session.loadFolder q.files path := rfl
    simp only [evalDirective, load, hload]
    cases (q.session.loadFolder q.files path).1 with
    | error f => rfl
    | ok r => rfl
  | run id arguments =>
    simp only [evalDirective]
    rw [session_above, report_above]
  | trace mode => cases mode <;> rfl
  | profile mode => cases mode <;> rfl
  | functions | limits change | help | quit => rfl

theorem eval_above (q p : Prompt) (input : String) :
    (q.above p).eval input = ((q.eval input).1, (q.eval input).2.above p) := by
  rw [eval, eval]
  cases Directive.parse input with
  | error mistake => rfl
  | ok directive =>
    cases directive with
    | some d => exact evalDirective_above q p d
    | none =>
      dsimp only
      rw [session_above, report_above]

/-- An evaluation reads nothing of what is shown, asked, taken and left open, and only shows more. -/
theorem submit_above (q p : Prompt) (input : String) :
    (q.above p).submit input = ((q.submit input).1, (q.submit input).2.above p) := by
  rw [submit, submit, eval_above]
  split
  · rfl
  · cases q.eval input with
    | mk result after =>
      cases result with
      | error f => rfl
      | ok text =>
        dsimp only
        split <;> rfl

/-- It says to go on unless the input quits. -/
theorem submit_fst (p : Prompt) (input : String) : (p.submit input).1 = !Directive.isQuit input := by
  rw [submit]
  cases Directive.isQuit input with
  | true => rfl
  | false => cases p.eval input with | mk result after => cases result <;> rfl

theorem submit_core (p : Prompt) (input : String) :
    (p.submit input).2.core = (p.core.submit input).2.core := by
  conv_lhs => rw [← above_core p, submit_above, core_above]

theorem history_submit (p : Prompt) (input : String) : (p.submit input).2.history = p.history := by
  conv_lhs => rw [← above_core p, submit_above]
  rfl

theorem pending_submit (p : Prompt) (input : String) : (p.submit input).2.pending = p.pending := by
  conv_lhs => rw [← above_core p, submit_above]
  rfl

/-! ### The inputs evaluated -/

def isQuit (input : List Char) : Bool := Directive.isQuit (String.ofList input)

/-- The inputs up to the first that quits, with it. -/
def untilQuit : List (List Char) → List (List Char)
  | [] => []
  | input :: rest => if isQuit input then [input] else input :: untilQuit rest

def evaluate (p : Prompt) (input : List Char) : Prompt := (p.submit (String.ofList input)).2

theorem submit_eq (p : Prompt) (input : List Char) :
    p.submit (String.ofList input) = (!isQuit input, p.evaluate input) :=
  Prod.ext (submit_fst p _) rfl

theorem submitAll_cons (p : Prompt) (input : List Char) (rest : List (List Char)) :
    p.submitAll (input :: rest) =
      if isQuit input then (false, p.evaluate input) else (p.evaluate input).submitAll rest := by
  rw [submitAll, submit_eq]
  cases isQuit input with
  | true => rfl
  | false => rfl

/-- What a script evaluates of its inputs. -/
theorem submitAll_eq (p : Prompt) (inputs : List (List Char)) :
    p.submitAll inputs = (!inputs.any isQuit, (untilQuit inputs).foldl evaluate p) := by
  induction inputs generalizing p with
  | nil => rfl
  | cons input rest ih =>
    rw [submitAll_cons, ih, untilQuit, List.any_cons]
    cases isQuit input <;> rfl

theorem untilQuit_append (a b : List (List Char)) :
    untilQuit (a ++ b) = if a.any isQuit then untilQuit a else untilQuit a ++ untilQuit b := by
  induction a with
  | nil => rfl
  | cons input rest ih =>
    rw [List.cons_append, untilQuit, untilQuit, ih, List.any_cons]
    cases isQuit input with
    | true => rfl
    | false => cases h : rest.any isQuit <;> simp

theorem not_isQuit_of_isBlank {input : List Char} (h : isBlank input = true) : isQuit input = false := by
  rw [isQuit, Directive.isQuit, Directive.parse, String.toList_ofList, List.isEmpty_iff.mp h]

/-- An input that is blank does not quit. -/
theorem filter_untilQuit (inputs : List (List Char)) :
    (untilQuit inputs).filter (!isBlank ·) = untilQuit (inputs.filter (!isBlank ·)) := by
  induction inputs with
  | nil => rfl
  | cons input rest ih =>
    rw [untilQuit, List.filter_cons]
    cases hblank : isBlank input with
    | true => simp [not_isQuit_of_isBlank hblank, hblank, ih]
    | false => cases hquit : isQuit input <;> simp [hquit, hblank, untilQuit, ih]

/-! ### The prompt -/

/-- A prompt that went on by evaluating some inputs, and has taken them down. -/
structure Took (p : Prompt) (inputs : List (List Char)) (q : Prompt) : Prop where
  core : q.core = (inputs.foldl evaluate p).core
  history : q.history = (inputs.map String.ofList).reverse ++ p.history

theorem core_foldl (p : Prompt) (inputs : List (List Char)) :
    (inputs.foldl evaluate p).core = (inputs.foldl evaluate p.core).core := by
  induction inputs generalizing p with
  | nil => rfl
  | cons input rest ih =>
    have hcore : (p.evaluate input).core = (p.core.evaluate input).core := submit_core p _
    rw [List.foldl_cons, List.foldl_cons, ih, ih (p.core.evaluate input), hcore]

theorem Took.trans {p q r : Prompt} {a b : List (List Char)} (h : Took p a q) (h' : Took q b r) :
    Took p (a ++ b) r where
  core := by rw [h'.core, core_foldl, h.core, ← core_foldl, List.foldl_append]
  history := by rw [h'.history, h.history, List.map_append, List.reverse_append, List.append_assoc]

theorem took_ask (p : Prompt) : Took p [] p.ask := by
  have hasked := asked_ask p
  unfold Asked at hasked
  rw [hasked]
  exact ⟨rfl, rfl⟩

/-- The inputs that the prompt evaluates if nothing quits. -/
def entered (inputs : List (List Char)) : List (List Char) := inputs.filter (!isBlank ·)

theorem any_isQuit_entered (inputs : List (List Char)) :
    (entered inputs).any isQuit = inputs.any isQuit := by
  rw [entered, List.any_filter]
  congr 1
  funext input
  cases hblank : isBlank input with
  | true => rw [not_isQuit_of_isBlank hblank]; rfl
  | false => rfl

/-- What the loop says after some inputs. -/
def statusAfter (inputs : List (List Char)) : Status := if inputs.any isQuit then .finished else .waiting

/-- What the prompt is to have done with the inputs that some lines complete, and with the one they
leave open. -/
structure Typed (p : Prompt) (script : List (List Char) × Option (List Char))
    (after : Status × Prompt) : Prop where
  status : after.1 = statusAfter (entered script.1)
  took : Took p (untilQuit (entered script.1)) after.2
  pending : after.1 = .waiting → after.2.pending = script.2

theorem take_open {p : Prompt} {input : List Char} (h : isComplete input = false) :
    p.take input = (.waiting, { p with pending := some input }) := by
  rw [take, h]
  rfl

theorem take_blank {p : Prompt} {input : List Char} (h : isComplete input = true)
    (hblank : isBlank input = true) : p.take input = (.waiting, { p with pending := none }) := by
  have hempty : (Text.trim input).isEmpty = true := hblank
  simp [take, h, hempty]

theorem take_input {p : Prompt} {input : List Char} (h : isComplete input = true)
    (hblank : isBlank input = false) :
    p.take input = (statusAfter [input],
      evaluate { p with pending := none, history := String.ofList input :: p.history } input) := by
  have hnonempty : (Text.trim input).isEmpty = false := hblank
  simp only [take, h, hnonempty, Bool.not_true, Bool.false_eq_true, if_false, submit_eq]
  rw [statusAfter, List.any_cons, List.any_nil, Bool.or_false]
  cases isQuit input with
  | true => rfl
  | false => rfl

theorem typed_take (p : Prompt) (input : List Char) :
    Typed p ((settle input).1.toList, (settle input).2) (p.take input) := by
  rcases Continuation.settle_eq input with ⟨hsettle, hcomplete⟩ | ⟨hsettle, hopen⟩
  · rw [hsettle]
    cases hblank : isBlank input with
    | true =>
      have hentered : entered [input] = [] := by simp [entered, hblank]
      rw [take_blank hcomplete hblank]
      refine ⟨?_, ?_, fun _ => rfl⟩
      · rw [Option.toList_some, hentered]
        rfl
      · rw [Option.toList_some, hentered]
        exact ⟨rfl, rfl⟩
    | false =>
      have hentered : entered [input] = [input] := by simp [entered, hblank]
      have huntil : untilQuit [input] = [input] := by simp [untilQuit]
      rw [take_input hcomplete hblank]
      refine ⟨?_, ?_, fun _ => pending_submit _ _⟩
      · rw [Option.toList_some, hentered]
      · rw [Option.toList_some, hentered, huntil]
        exact ⟨(submit_core _ _).trans (submit_core p _).symm, history_submit _ _⟩
  · rw [hsettle, take_open hopen]
    exact ⟨rfl, ⟨rfl, rfl⟩, fun _ => rfl⟩

/-- One more line. -/
theorem typed_line (p : Prompt) {line : List Char} (h : (Text.trim line).head? ≠ some '#') :
    Typed p ((Continuation.feed p.pending line).1.toList, (Continuation.feed p.pending line).2)
      (p.read (.line (String.ofList line))) := by
  unfold read Continuation.feed
  cases hpending : p.pending with
  | some input =>
    simp only [String.toList_ofList]
    exact typed_take p (join input line)
  | none =>
    simp only [String.toList_ofList]
    cases hblank : isBlank line with
    | true =>
      rw [Continuation.isSkipped_of_isBlank hblank,
        take_blank (Continuation.isComplete_of_isBlank hblank) hblank]
      exact ⟨rfl, ⟨rfl, rfl⟩, fun _ => rfl⟩
    | false =>
      have hbegins : isSkipped line = false := by rw [Continuation.isSkipped_eq_isBlank h, hblank]
      rw [hbegins]
      exact typed_take p line

/-- What more lines lead to, unless the loop has stopped. -/
theorem Typed.goOn {p : Prompt} {script rest : List (List Char) × Option (List Char)}
    {after : Status × Prompt} {more : List Reading} (h : Typed p script after)
    (hrest : after.1 = .waiting → Typed after.2 rest (after.2.feed more)) :
    Typed p (script.1 ++ rest.1, rest.2) (goOn after more) := by
  have hentered : entered (script.1 ++ rest.1) = entered script.1 ++ entered rest.1 :=
    List.filter_append ..
  obtain ⟨status, q⟩ := after
  have hstatus : status = statusAfter (entered script.1) := h.status
  cases hquit : (entered script.1).any isQuit with
  | true =>
    rw [statusAfter, hquit, if_pos rfl] at hstatus
    subst hstatus
    refine ⟨?_, ?_, fun hwaiting => Status.noConfusion hwaiting⟩
    · rw [statusAfter, hentered, List.any_append, hquit]
      rfl
    · rw [hentered, untilQuit_append, hquit]
      exact h.took
  | false =>
    rw [statusAfter, hquit, if_neg Bool.false_ne_true] at hstatus
    subst hstatus
    have hmore := hrest rfl
    refine ⟨?_, ?_, hmore.pending⟩
    · rw [statusAfter, hentered, List.any_append, hquit]
      exact hmore.status
    · rw [hentered, untilQuit_append, hquit]
      exact h.took.trans hmore.took

theorem typed_feed (p : Prompt) {lines : List (List Char)}
    (h : ∀ line ∈ lines, (Text.trim line).head? ≠ some '#') :
    Typed p (inputs p.pending lines) (p.feed (typed lines)) := by
  induction lines generalizing p with
  | nil => exact ⟨rfl, ⟨rfl, rfl⟩, fun _ => rfl⟩
  | cons line lines ih =>
    rw [List.forall_mem_cons] at h
    have hline := typed_line p.ask h.1
    rw [pending_ask] at hline
    have hlines : Typed p.ask (inputs p.pending (line :: lines)) (p.feed (typed (line :: lines))) :=
      hline.goOn fun hwaiting => by
        have hrest := ih (p.ask.read (.line (String.ofList line))).2 h.2
        rw [hline.pending hwaiting] at hrest
        exact hrest
    exact ⟨hlines.status, (took_ask p).trans hlines.took, hlines.pending⟩

/-- The end of the loop takes no more, and fails if an input is open. -/
theorem Typed.leave {p : Prompt} {script : List (List Char) × Option (List Char)}
    {after : Status × Prompt} (h : Typed p script after) :
    Took p (untilQuit (entered script.1)) (leave after).2 ∧
      ((leave after).1 = .ok () ↔ script.2 = none ∨ (entered script.1).any isQuit = true) := by
  obtain ⟨status, q⟩ := after
  have hstatus : status = statusAfter (entered script.1) := h.status
  cases hquit : (entered script.1).any isQuit with
  | true =>
    rw [statusAfter, hquit, if_pos rfl] at hstatus
    subst hstatus
    exact ⟨⟨h.took.core, h.took.history⟩, by simp [Prompt.leave]⟩
  | false =>
    rw [statusAfter, hquit, if_neg Bool.false_ne_true] at hstatus
    subst hstatus
    have hpending : q.ask.pending = script.2 := by rw [pending_ask, ← h.pending rfl]
    have hasked : Took p (untilQuit (entered script.1)) q.ask := by
      have htook := h.took.trans (took_ask q)
      rw [List.append_nil] at htook
      exact htook
    rw [Prompt.leave.eq_def]
    cases hopen : script.2 with
    | none =>
      have hread : q.ask.read .ended = (.finished, q.ask) := by
        unfold read
        rw [hpending, hopen]
      simp only [hread]
      exact ⟨⟨hasked.core, hasked.history⟩, by simp⟩
    | some input =>
      have hread : q.ask.read .ended =
          (.failed (.internal "unexpected end of input after a continuation"),
            { q.ask with pending := none }) := by
        unfold read
        rw [hpending, hopen]
      simp only [hread]
      exact ⟨⟨hasked.core, hasked.history⟩, by simp⟩

theorem took_greet (p : Prompt) : Took p [] p.greet := by
  unfold greet
  cases p.banner <;> exact ⟨rfl, rfl⟩

theorem pending_greet (p : Prompt) : p.greet.pending = p.pending := by
  unfold greet
  cases p.banner <;> rfl

/-- What a script does that leaves nothing open. -/
theorem runScript_eq (p : Prompt) (path : String) {text : String}
    (h : (inputs none (Text.lines text.toList)).2 = none) :
    p.runScript path text =
      (untilQuit (inputs none (Text.lines text.toList)).1).foldl evaluate p := by
  have hdraft := Draft.inputs_ofText none (Text.lines text.toList)
  rw [Option.map_none, h, Option.map_none] at hdraft
  rw [runScript, hdraft]
  simp only [submitAll_eq]
  cases (inputs none (Text.lines text.toList)).1.any isQuit with
  | true => rfl
  | false => rfl

/-- **A script and the prompt.** A text in which no line is a comment, typed line by line, is taken
as the inputs that the script evaluates but for those that are blank, up to the first that quits; the
prompt evaluates these as the script does, and ends well if nothing is left open behind them. Where
every line is blank or has a character beside blanks and backslashes, no input of the script is blank,
and the two come to the same. -/
theorem typed_as_script (p : Prompt) (path text : String) (hpending : p.pending = none)
    (hcomments : ∀ line ∈ Text.lines text.toList, (Text.trim line).head? ≠ some '#') :
    let lines := Text.lines text.toList
    let script := inputs none lines
    let evaluated := untilQuit script.1
    let after := p.run (typed lines)
    (script.2 = none → p.runScript path text = evaluated.foldl evaluate p) ∧
      Took p (evaluated.filter (!isBlank ·)) after.2 ∧
      (after.1 = .ok () ↔ script.2 = none ∨ script.1.any isQuit = true) ∧
      ((∀ line ∈ lines, isBlank line = true ∨ Continuation.HasSolid line) →
        Took p evaluated after.2 ∧
          (script.2 = none → after.2.core = (p.runScript path text).core)) := by
  intro lines script evaluated after
  have htyped := (typed_feed p.greet hcomments).leave
  rw [pending_greet, hpending] at htyped
  have htook : Took p (evaluated.filter (!isBlank ·)) after.2 := by
    rw [filter_untilQuit]
    exact (took_greet p).trans htyped.1
  refine ⟨runScript_eq p path, htook, ?_, fun hsolid => ?_⟩
  · rw [← any_isQuit_entered]
    exact htyped.2
  · have hall : evaluated.filter (!isBlank ·) = evaluated := by
      rw [filter_untilQuit, List.filter_eq_self.mpr]
      intro input hinput
      have hmem := Continuation.solid_of_mem_inputs (by simp) hsolid input hinput
      rw [hmem.not_blank]
      rfl
    rw [hall] at htook
    exact ⟨htook, fun hclosed => by rw [htook.core, runScript_eq p path hclosed]⟩

/-- A lone backslash joined with a blank line is an input for a script alone. -/
example : inputs none ["\\".toList, []] = ([[]], none) ∧ entered [[]] = [] := by decide

end Prompt
end Trampoline
