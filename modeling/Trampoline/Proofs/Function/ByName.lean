import Trampoline.Proofs.Function.LineLength
import Trampoline.Proofs.Function.Recall
import Trampoline.Proofs.Template.Replacement

/-! Templated functions put in values by name.

A compiled template finds the values of its variables by two steps, from the variable to a place
and from the place to a text. Both together are the name (`fillSlots_eq`). So what a request
gives can be told from the function's text and the record alone: it is refused for the first
name of the text that the record does not hold, or for the first line that cannot be run once
its variables have been replaced, and otherwise gives the lines of the text with their variables
replaced (`Function.instantiate_by_name`). Bodies that are kept from earlier requests make no
difference to that. -/
namespace Trampoline

/-! ### The first that fails -/

theorem find?_eraseDups {α : Type} [BEq α] [LawfulBEq α] (p : α → Bool) (as : List α) :
    as.eraseDups.find? p = as.find? p := by
  induction as using List.reverseRecOn with
  | nil => rfl
  | append_singleton as a ih =>
    rw [List.eraseDups_append, List.find?_append, List.find?_append, ih]
    by_cases hmem : a ∈ as
    · -- what is said of `a` was said of it before
      have hnothing : [a].removeAll as = [] := by simp [List.removeAll, hmem]
      rw [hnothing, List.eraseDups_nil]
      cases hfound : as.find? p with
      | some found => rfl
      | none => simp [List.find?_eq_none.mp hfound a hmem]
    · have hone : [a].removeAll as = [a] := by simp [List.removeAll, hmem]
      rw [hone]
      rfl

/-- Turning the items of a list into something fails at the first that cannot be turned. -/
theorem mapM_error_iff {ε α β : Type} {f : α → Except ε β} {as : List α} {e : ε} :
    as.mapM f = .error e ↔ ∃ before a after, as = before ++ a :: after ∧
      (∀ earlier ∈ before, ∃ b, f earlier = .ok b) ∧ f a = .error e := by
  induction as with
  | nil =>
    refine iff_of_false (fun h => nomatch h) ?_
    rintro ⟨before, a, after, h, -⟩
    simp at h
  | cons a as ih =>
    rw [List.mapM_cons]
    cases ha : f a with
    | error e' =>
      constructor
      · intro h
        cases h
        exact ⟨[], a, as, rfl, fun _ h => absurd h List.not_mem_nil, ha⟩
      · rintro ⟨before, a', after, heq, hbefore, hfails⟩
        cases before with
        | nil =>
          cases heq
          cases ha.symm.trans hfails
          rfl
        | cons first before =>
          cases heq
          obtain ⟨b, hb⟩ := hbefore a List.mem_cons_self
          cases ha.symm.trans hb
    | ok b =>
      have hrest : ((do let b ← Except.ok b; let bs ← as.mapM f; pure (b :: bs)) =
          (Except.error e : Except ε (List β))) ↔ as.mapM f = .error e := by
        cases as.mapM f <;> simp [bind, Except.bind, pure, Except.pure]
      rw [hrest, ih]
      constructor
      · rintro ⟨before, a', after, rfl, hbefore, hfails⟩
        exact ⟨a :: before, a', after, rfl, List.forall_mem_cons.mpr ⟨⟨b, ha⟩, hbefore⟩, hfails⟩
      · rintro ⟨before, a', after, heq, hbefore, hfails⟩
        cases before with
        | nil =>
          cases heq
          cases ha.symm.trans hfails
        | cons first before =>
          cases heq
          exact ⟨before, a', after, rfl, (List.forall_mem_cons.mp hbefore).2, hfails⟩

namespace Templated

variable {V : Vocabulary}

/-! ### Names for places -/

/-- The text that a record has for a name. -/
def given (record : Record) (name : String) : String :=
  ((record.get? name).map Value.argument).getD ""

/-- A record that lacks none of the parameters gives the text of each. -/
theorem key_eq (t : Templated V) (record : Record) :
    t.key (some record) =
      match t.parameters.find? fun name => (record.get? name).isNone with
      | some name => .error ⟨⟨Message.missingArgumentKey, [t.id, name]⟩, none⟩
      | none => .ok (t.parameters.map (given record)) := by
  unfold key
  dsimp only
  generalize t.parameters = parameters
  induction parameters with
  | nil => rfl
  | cons name parameters ih =>
    rw [List.mapM_cons, ih, List.find?_cons]
    cases hvalue : record.get? name with
    | none => rfl
    | some value =>
      dsimp only [Option.isNone_some]
      cases hfound : parameters.find? fun name => (record.get? name).isNone with
      | some missing => rfl
      | none =>
        rw [List.map_cons, given, hvalue]
        rfl

/-- The places of a template's variables lead to the values of their names. -/
theorem fillSlots_eq {template : Template} {slots : List Nat} {parameters : List String}
    (hproper : template.Proper)
    (hslots : slots.map (parameters[·]?) = template.names.map some) (value : String → String) :
    fillSlots template slots (parameters.map value) =
      String.ofList (Template.replace (fun _ name => value name) 0 template.source) := by
  have hvalues : (slots.map fun slot => (parameters.map value).getD slot "") =
      template.names.map value := by
    have hmap := congrArg (List.map fun found => (found.map value).getD "") hslots
    simpa [List.getD_eq_getElem?_getD, Function.comp_def] using hmap
  unfold fillSlots
  rw [hvalues]
  refine congrArg String.ofList (Template.fill_eq_replace hproper (List.length_map _) ?_)
  intro i name hname
  rw [List.getElem?_map, hname]
  rfl

variable {t : Templated V} {parse : String → Except CommandError (Chain V)} {values : List String}
  {body : Body V}

theorem build_error_iff {e : CommandError} :
    t.build parse values = .error e ↔
      t.lines.mapM (fillLine parse (t.bodyId values) values) = .error e := by
  unfold build
  dsimp only
  cases t.lines.mapM (fillLine parse (t.bodyId values) values) <;>
    simp [bind, Except.bind, pure, Except.pure]

theorem mapM_of_build (h : t.build parse values = .ok body) :
    t.lines.mapM (fillLine parse (t.bodyId values) values) = .ok body.lines := by
  obtain ⟨lines, hlines, h⟩ := Command.ok_of_bind h
  cases h
  exact hlines

end Templated

namespace Compile

variable {V : Vocabulary}

/-! ### Lines with their variables replaced -/

/-- A line with the variables in it replaced by name; its mark goes too. -/
def replaced (value : String → String) (line : Numbered) : List Char :=
  match line.2 with
  | '$' :: rest => Template.replace (fun _ name => value name) 0 rest
  | text => text

/-- The names of the variables of lines, as they appear. -/
def namesOf (lines : List Numbered) : List String :=
  lines.flatMap fun line =>
    match line.2 with
    | '$' :: rest => Template.namesIn rest
    | _ => []

/-- Why a text cannot be run. -/
inductive Refuses (parse : String → Except CommandError (Chain V)) (text : List Char) :
    String → Prop where
  | overlong (hlong : maxLineLength < text.length) : Refuses parse text (tooLong text).message
  | unparsable {e : CommandError} (hshort : text.length ≤ maxLineLength)
      (hparse : parse (String.ofList text) = .error e) : Refuses parse text e.describe

/-- The error of a body that could not be made. -/
def refusal (bodyId : String) (text : List Char) (reason : String) : CommandError :=
  ⟨⟨Message.fillingKey, [bodyId, String.ofList text, reason]⟩, none⟩

/-- The chain of a line with its variables replaced. -/
def chainOf (parse : String → Except CommandError (Chain V)) (bodyId : String)
    (value : String → String) (line : Numbered) : Except CommandError (Chain V) :=
  let text := replaced value line
  match overlong text with
  | some kind => .error (refusal bodyId text kind.message)
  | none =>
    match parse (String.ofList text) with
    | .ok chain => .ok chain
    | .error e => .error (refusal bodyId text e.describe)

variable {parse : String → Except CommandError (Chain V)} {bodyId : String}
  {value : String → String} {line : Numbered} {parameters : List String}
  {entry : TemplatedLine V}

theorem chainOf_ok_iff {chain : Chain V} :
    chainOf parse bodyId value line = .ok chain ↔ (replaced value line).length ≤ maxLineLength ∧
      parse (String.ofList (replaced value line)) = .ok chain := by
  unfold chainOf
  dsimp only
  by_cases hlength : (replaced value line).length ≤ maxLineLength
  · rw [overlong_eq_none hlength]
    cases parse (String.ofList (replaced value line)) <;> simp [hlength]
  · simp [overlong, hlength]

theorem chainOf_error_iff {e : CommandError} :
    chainOf parse bodyId value line = .error e ↔ ∃ reason,
      Refuses parse (replaced value line) reason ∧
      e = refusal bodyId (replaced value line) reason := by
  unfold chainOf
  dsimp only
  by_cases hlength : (replaced value line).length ≤ maxLineLength
  · rw [overlong_eq_none hlength]
    cases hparse : parse (String.ofList (replaced value line)) with
    | ok chain =>
      refine iff_of_false (fun h => nomatch h) ?_
      rintro ⟨reason, hrefuses, -⟩
      cases hrefuses with
      | overlong hlong => exact Nat.not_lt_of_le hlength hlong
      | unparsable _ hparse' => cases hparse.symm.trans hparse'
    | error e' =>
      constructor
      · intro h
        exact ⟨_, .unparsable hlength hparse, (Except.error.inj h).symm⟩
      · rintro ⟨reason, hrefuses, rfl⟩
        cases hrefuses with
        | overlong hlong => exact absurd hlong (Nat.not_lt_of_le hlength)
        | unparsable _ hparse' =>
          cases hparse.symm.trans hparse'
          rfl
  · simp only [overlong, if_neg hlength]
    constructor
    · intro h
      exact ⟨_, .overlong (Nat.lt_of_not_le hlength), (Except.error.inj h).symm⟩
    · rintro ⟨reason, hrefuses, rfl⟩
      cases hrefuses with
      | overlong _ => rfl
      | unparsable hshort _ => exact absurd hshort hlength

theorem replaced_of_isCommand (h : IsCommand line.2) : replaced value line = line.2 := by
  obtain ⟨c, rest, heq, hc⟩ := h
  unfold replaced
  split
  · next heq' =>
    cases heq.symm.trans heq'
    exact absurd hc (by simp)
  · rfl

/-- What becomes of a line is filled as the line's text. -/
theorem Becomes.fillLine_eq (h : Becomes parse parameters line entry)
    (hshort : line.2.length ≤ maxLineLength) :
    Templated.fillLine parse bodyId (parameters.map value) entry = chainOf parse bodyId value line := by
  cases h with
  | @command number text chain hcommand hparse _ =>
    refine (chainOf_ok_iff.mpr ?_).symm
    rw [replaced_of_isCommand hcommand]
    exact ⟨hshort, hparse⟩
  | template hproper hsource hslots =>
    have htext := Templated.fillSlots_eq hproper hslots value
    rw [hsource] at htext
    unfold Templated.fillLine chainOf
    simp only [htext, String.toList_ofList]
    rfl

/-- The lines of a templated function are filled as the lines of its text. -/
theorem mapM_fillLine {lines : List Numbered} {entries : List (TemplatedLine V)}
    (h : List.Forall₂ (Becomes parse parameters) lines entries)
    (hshort : ∀ line ∈ lines, line.2.length ≤ maxLineLength) :
    entries.mapM (Templated.fillLine parse bodyId (parameters.map value)) =
      lines.mapM (chainOf parse bodyId value) := by
  induction h with
  | nil => rfl
  | cons hfirst _ ih =>
    obtain ⟨hline, hlines⟩ := List.forall_mem_cons.mp hshort
    rw [List.mapM_cons, List.mapM_cons, hfirst.fillLine_eq hline, ih hlines]

theorem namesOf_eq {lines : List Numbered} {entries : List (TemplatedLine V)}
    (h : List.Forall₂ (Becomes parse parameters) lines entries) :
    namesOf lines = variableNames entries := by
  induction h with
  | nil => rfl
  | @cons line entry lines entries hfirst _ ih =>
    have hnames : namesOf (line :: lines) = namesOf [line] ++ namesOf lines := by
      simp [namesOf]
    have hentries : variableNames (entry :: entries) =
        variableNames [entry] ++ variableNames entries := by simp [variableNames]
    rw [hnames, hentries, ih]
    refine congrArg (· ++ variableNames entries) ?_
    cases hfirst with
    | @command number text chain hcommand _ _ =>
      obtain ⟨c, rest, rfl, hc⟩ := hcommand
      unfold namesOf
      rw [List.flatMap_singleton]
      split
      · next heq =>
        cases heq
        exact absurd hc (by simp)
      · rfl
    | @template number rest template slots hproper hsource _ =>
      simp [namesOf, variableNames, ← hsource, hproper.namesIn_source]

/-! ### Requests -/

/-- What a request gives, told by the lines of a function's text and the record. -/
structure FilledByName (parse : String → Except CommandError (Chain V)) (t : Templated V)
    (lines : List Numbered) (record : Record) (result : Except CommandError (Body V)) : Prop where
  /-- The first name of the text that the record does not hold is missed. -/
  missing : ∀ name, (namesOf lines).find? (fun name => (record.get? name).isNone) = some name →
    result = .error ⟨⟨Message.missingArgumentKey, [t.id, name]⟩, none⟩
  /-- If it holds them all, the request fails exactly if a template cannot be run once its variables
  have been replaced, and tells the first. -/
  refused : (∀ name ∈ namesOf lines, (record.get? name).isSome) → ∀ e, result = .error e ↔
    ∃ before number rest after reason, lines = before ++ (number, '$' :: rest) :: after ∧
      (∀ earlier ∈ before, ∀ reason,
        ¬Refuses parse (replaced (Templated.given record) earlier) reason) ∧
      Refuses parse (replaced (Templated.given record) (number, '$' :: rest)) reason ∧
      e = refusal (t.bodyId (t.parameters.map (Templated.given record)))
        (replaced (Templated.given record) (number, '$' :: rest)) reason
  /-- A body has one chain for each line, in order: that of the line with its variables replaced. -/
  body : ∀ body, result = .ok body → List.Forall₂ (fun line chain =>
    chain.input = String.ofList (replaced (Templated.given record) line) ∧
      parse (String.ofList (replaced (Templated.given record) line)) = .ok chain) lines body.lines
  /-- Lines without variables are the chains they were compiled to. -/
  kept : ∀ body, result = .ok body →
    List.Forall₂ (fun entry chain => ∀ plain, entry = .plain plain → chain = plain) t.lines body.lines

variable {t : Templated V} {lines : List Numbered} {record : Record}

theorem chainOf_isOk_iff :
    (∃ chain, chainOf parse bodyId value line = .ok chain) ↔
      ∀ reason, ¬Refuses parse (replaced value line) reason := by
  cases hchain : chainOf parse bodyId value line with
  | ok chain =>
    refine iff_of_true ⟨chain, rfl⟩ fun reason hrefuses => ?_
    cases hchain.symm.trans (chainOf_error_iff.mpr ⟨reason, hrefuses, rfl⟩)
  | error e =>
    obtain ⟨reason, hrefuses, -⟩ := chainOf_error_iff.mp hchain
    exact iff_of_false (fun ⟨_, h⟩ => nomatch h) fun h => h reason hrefuses

/-- Only templates can fail. -/
theorem Becomes.eq_of_chainOf {e : CommandError} (h : Becomes parse parameters line entry)
    (hshort : line.2.length ≤ maxLineLength) (hfails : chainOf parse bodyId value line = .error e) :
    ∃ number rest, line = (number, '$' :: rest) := by
  cases h with
  | @command number text chain hcommand hparse _ =>
    have hchain : chainOf parse bodyId value (number, text) = .ok chain := by
      rw [chainOf_ok_iff, replaced_of_isCommand hcommand]
      exact ⟨hshort, hparse⟩
    cases hchain.symm.trans hfails
  | template _ _ _ => exact ⟨_, _, rfl⟩

/-- What a function that keeps nothing gives: the names of the text are asked for in order, then its
lines are filled. -/
theorem built_eq (hlines : List.Forall₂ (Becomes parse t.parameters) lines t.lines)
    (hparameters : (variableNames t.lines).eraseDups = t.parameters) (record : Record) :
    t.built parse (some record) =
      match (namesOf lines).find? fun name => (record.get? name).isNone with
      | some name => .error ⟨⟨Message.missingArgumentKey, [t.id, name]⟩, none⟩
      | none => t.build parse (t.parameters.map (Templated.given record)) := by
  have hfind : (t.parameters.find? fun name => (record.get? name).isNone) =
      (namesOf lines).find? fun name => (record.get? name).isNone := by
    rw [← hparameters, find?_eraseDups, namesOf_eq hlines]
  unfold Templated.built
  rw [Templated.key_eq, hfind]
  cases (namesOf lines).find? fun name => (record.get? name).isNone <;> rfl

theorem filledByName_built (hlines : List.Forall₂ (Becomes parse t.parameters) lines t.lines)
    (hparameters : (variableNames t.lines).eraseDups = t.parameters)
    (hshort : ∀ line ∈ lines, line.2.length ≤ maxLineLength) (hkeeps : KeepsText parse)
    (record : Record) : FilledByName parse t lines record (t.built parse (some record)) := by
  have hbuilt := built_eq hlines hparameters record
  have hfill : t.lines.mapM (Templated.fillLine parse
      (t.bodyId (t.parameters.map (Templated.given record)))
      (t.parameters.map (Templated.given record))) =
      lines.mapM (chainOf parse (t.bodyId (t.parameters.map (Templated.given record)))
        (Templated.given record)) := mapM_fillLine hlines hshort
  -- a body was built, and nothing was missing
  have hmade : ∀ body, t.built parse (some record) = .ok body →
      t.lines.mapM (Templated.fillLine parse (t.bodyId (t.parameters.map (Templated.given record)))
        (t.parameters.map (Templated.given record))) = .ok body.lines := by
    intro body hbody
    rw [hbuilt] at hbody
    split at hbody
    · cases hbody
    · exact Templated.mapM_of_build hbody
  refine ⟨fun name hname => ?_, fun hpresent e => ?_, fun body hbody => ?_, fun body hbody => ?_⟩
  · rw [hbuilt, hname]
  · have hnone : ((namesOf lines).find? fun name => (record.get? name).isNone) = none :=
      List.find?_eq_none.mpr fun name hname => by
        simpa [Option.isSome_iff_ne_none] using hpresent name hname
    simp only [hbuilt, hnone]
    rw [Templated.build_error_iff, hfill, mapM_error_iff]
    constructor
    · -- the line that fails is a template, as a plain line has been run through the parser before
      rintro ⟨before, line, after, rfl, hbefore, hfails⟩
      obtain ⟨entry, -, hbecomes⟩ := exists_mem_of_forall₂ hlines
        (List.mem_append_right before List.mem_cons_self)
      obtain ⟨number, rest, rfl⟩ := hbecomes.eq_of_chainOf
        (hshort _ (List.mem_append_right _ List.mem_cons_self)) hfails
      obtain ⟨reason, hrefuses, rfl⟩ := chainOf_error_iff.mp hfails
      exact ⟨before, number, rest, after, reason, rfl,
        fun earlier hmem => chainOf_isOk_iff.mp (hbefore earlier hmem), hrefuses, rfl⟩
    · rintro ⟨before, number, rest, after, reason, rfl, hbefore, hrefuses, rfl⟩
      exact ⟨before, _, after, rfl, fun earlier hmem => chainOf_isOk_iff.mpr (hbefore earlier hmem),
        chainOf_error_iff.mpr ⟨reason, hrefuses, rfl⟩⟩
  · have hchains := mapM_ok_iff.mp (hfill.symm.trans (hmade body hbody))
    refine hchains.imp fun line chain hchain => ?_
    obtain ⟨-, hparse⟩ := chainOf_ok_iff.mp hchain
    exact ⟨hkeeps _ _ hparse, hparse⟩
  · refine (mapM_ok_iff.mp (hmade body hbody)).imp fun entry chain hchain plain hplain => ?_
    subst hplain
    exact (Except.ok.inj hchain).symm

/-- When a body was made does not matter. -/
theorem FilledByName.of_content {result result' : Except CommandError (Body V)}
    (h : FilledByName parse t lines record result)
    (hcontent : result'.map Body.content = result.map Body.content) :
    FilledByName parse t lines record result' := by
  cases result with
  | error e =>
    rw [Templated.eq_error_of_map hcontent]
    exact h
  | ok body =>
    obtain ⟨body', rfl⟩ : ∃ body', result' = .ok body' := by
      cases result' with
      | error e => cases hcontent
      | ok body' => exact ⟨body', rfl⟩
    have hlines : body'.lines = body.lines := congrArg Prod.snd (Except.ok.inj hcontent)
    refine ⟨fun name hname => (nomatch h.missing name hname), fun hpresent e => ?_,
      fun made hmade => ?_, fun made hmade => ?_⟩
    · exact iff_of_false (fun h => nomatch h) fun hfails =>
        nomatch (h.refused hpresent e).mpr hfails
    · cases hmade
      rw [hlines]
      exact h.body body rfl
    · cases hmade
      rw [hlines]
      exact h.kept body rfl

/-- A templated function is made of the lines of its text that contribute, none of them too long. -/
theorem templated_of_compile {resolve : Nat → String → Except CommandError (List (Stage V))}
    {id : String} {permission : Nat} {texts : List String}
    (h : Function.compile (fun level => Chain.parse (resolve level)) id permission texts =
      .ok (.templated t)) :
    MadeOf (Chain.parse (resolve permission)) id permission
        (logical 1 none (texts.map String.toList)).1 (.templated t) ∧
      (variableNames t.lines).eraseDups = t.parameters := by
  obtain ⟨items, -, hreads, hassemble⟩ :=
    (compile_iff_reads (Function.fits_of_compile h) _).mp h
  have hmade := madeOf_assemble id permission (keepsText_parse (resolve permission))
    (items_of_reads hreads)
  rw [hassemble] at hmade
  refine ⟨hmade, ?_⟩
  unfold assemble at hassemble
  split at hassemble
  · cases hassemble
  · cases hassemble
    exact variableNames_templatedLine _ _

end Compile

/-- **Values are put in by name.** Whatever was asked of a templated function before, a request with
a record gives what the text of the function says: it is refused for the first name in it that the
record does not hold, or for the first template that cannot be run with its variables replaced, and
otherwise gives a body of the lines, in order. -/
theorem Function.instantiate_by_name {V : Vocabulary}
    (resolve : Nat → String → Except CommandError (List (Stage V))) {id : String} {permission : Nat}
    {lines : List String} {t : Templated V}
    (h : Function.compile (fun level => Chain.parse (resolve level)) id permission lines =
      .ok (.templated t)) (past : List (Option Record)) (record : Record) :
    t.id = id ∧ t.permission = permission ∧
      Compile.FilledByName (Chain.parse (resolve permission)) t
        ((Compile.logical 1 none (lines.map String.toList)).1.filter Compile.contributes) record
        ((t.requests (Chain.parse (resolve t.permission)) past).2.instantiate
          (Chain.parse (resolve t.permission)) (some record)).1 := by
  obtain ⟨hmade, hparameters⟩ := Compile.templated_of_compile h
  have hlength := Function.length_le_of_compile h
  have hbecame := Function.became_of_compile h
  cases hmade with
  | templated hid hpermission _ hlines _ =>
    subst hid hpermission
    have hbuilt := Compile.filledByName_built hlines hparameters
      (fun line hline => hlength line (List.mem_filter.mp hline).1)
      (Compile.keepsText_parse (resolve t.permission)) record
    obtain ⟨-, hnow, -⟩ := Templated.requests_keep hbecame past
    exact ⟨rfl, rfl, hbuilt.of_content (Templated.instantiate_keeps hnow (some record)).1⟩

namespace Templated

/-- Two variables, named the other way round in the second template, and a line without any between
them. -/
def exchange : List String := ["$say $(b) $(a)", "say plain", "$counter set $(a) $(b)"]

/-- The lines of the text that contribute. -/
def exchangeLines : List Compile.Numbered :=
  [(1, "$say $(b) $(a)".toList), (2, "say plain".toList), (3, "$counter set $(a) $(b)".toList)]

/-- A value that looks like a variable is put in as it is. -/
theorem instantiate_by_name_exchange :
    ∃ t, Function.compile (fun level => Chain.parse (Command.resolve level)) "t:exchange" 2 exchange =
        .ok (.templated t) ∧
      (∃ body, (t.instantiate (Command.parse 2) (some [("a", .text "$(b)"), ("b", .int 5)])).1 =
          .ok body ∧
        body.lines.map Chain.input = ["say 5 $(b)", "say plain", "counter set $(b) 5"]) ∧
      (t.instantiate (Command.parse 2) (some [("b", .int 5)])).1 =
        .error ⟨⟨Message.missingArgumentKey, ["t:exchange", "a"]⟩, none⟩ := by
  obtain ⟨t, ht⟩ : ∃ t, Function.compile (fun level => Chain.parse (Command.resolve level))
      "t:exchange" 2 exchange = .ok (.templated t) := ⟨_, rfl⟩
  have hlines : (Compile.logical 1 none (exchange.map String.toList)).1.filter Compile.contributes =
      exchangeLines := by decide
  have hfilled := Function.instantiate_by_name Command.resolve ht []
  rw [hlines] at hfilled
  refine ⟨t, ht, ?_, ?_⟩
  · obtain ⟨body, hbody⟩ : ∃ body, (t.instantiate (Command.parse 2)
        (some [("a", .text "$(b)"), ("b", .int 5)])).1 = .ok body := by
      cases ht
      exact ⟨_, rfl⟩
    obtain ⟨-, hpermission, hfilled⟩ := hfilled [("a", .text "$(b)"), ("b", .int 5)]
    rw [hpermission] at hfilled
    have hinputs := (hfilled.body body hbody).imp fun _ _ h => h.1.symm
    rw [← List.forall₂_map_right_iff, ← List.forall₂_map_left_iff, List.forall₂_eq_eq_eq] at hinputs
    have ha : given [("a", .text "$(b)"), ("b", .int 5)] "a" = "$(b)" := by decide
    have hb : given [("a", .text "$(b)"), ("b", .int 5)] "b" = "5" := by decide
    refine ⟨body, hbody, hinputs.symm.trans ?_⟩
    simp [exchangeLines, Compile.replaced, Template.replace, ha, hb]
  · obtain ⟨hid, hpermission, hfilled⟩ := hfilled [("b", .int 5)]
    rw [hpermission] at hfilled
    rw [← hid]
    refine hfilled.missing "a" ?_
    simp [Compile.namesOf, exchangeLines, Template.namesIn, NameMap.get?]

end Templated

end Trampoline
