import Mathlib.Data.List.Forall2
import Mathlib.Data.List.Induction
import Trampoline.Proofs.Command.Bounds
import Trampoline.Proofs.Template

/-! The line grammar of function texts.

A function text is read as logical lines (`logical`): a trimmed line, in which every
backslash at the end has given way to the next line. Compiling works on texts that are
kept newest character first and measured as they grow; as long as no text that is put
together is too long, it sees exactly the logical lines (`join_eq`). A text compiles if
and only if each of them is admissible on its own and none is left open, and the
function then has one line for each that is neither blank nor a comment, in order
(`compile_ok_iff`). -/
namespace Trampoline

namespace Compile

variable {V : Vocabulary}

/-! ### Logical lines -/

/-- A logical line with the number of its first part. -/
abbrev Numbered := Nat × List Char

/-- One more line: it begins a text, or takes the place of the backslash at the end of the text
left open. -/
def extend (open_ : Option (List Char)) (line : List Char) : List Char :=
  match open_ with
  | none => Text.trim line
  | some text => text.dropLast ++ Text.trim line

/-- The logical lines, and the one that is left open by a backslash at the very end. -/
def logical (number : Nat) (open_ : Option Numbered) :
    List (List Char) → List Numbered × Option Numbered
  | [] => ([], open_)
  | line :: rest =>
    let text := ((open_.map Prod.fst).getD number, extend (open_.map Prod.snd) line)
    if continues text.2 then logical (number + 1) (some text) rest
    else
      let (more, left) := logical (number + 1) none rest
      (text :: more, left)

/-- Every text that is put together of several lines on the way, and every logical line. -/
def joins (open_ : Option (List Char)) : List (List Char) → List (List Char)
  | [] => []
  | line :: rest =>
    let text := extend open_ line
    if continues text then (if open_.isSome then [text] else []) ++ joins (some text) rest
    else text :: joins none rest

/-- A line under way as it is kept, newest character first, and as it reads. -/
def reading (line : Nat × Backlog Char) : Numbered := (line.1, line.2.toList.reverse)

theorem reverse_tail_pushAll (newest : Backlog Char) (part : List Char) :
    (newest.tail.pushAll part).toList.reverse = newest.toList.reverse.dropLast ++ part := by
  rw [Backlog.toList_pushAll, Backlog.toList_tail, List.reverse_append, List.reverse_reverse,
    List.dropLast_reverse]

theorem continues_reverse (newest : List Char) :
    continues newest.reverse = (newest.head? == some '\\') := by
  rw [continues, List.getLast?_reverse]

theorem extend_mem_joins (text line : List Char) (rest : List (List Char)) :
    extend (some text) line ∈ joins (some text) (line :: rest) := by
  by_cases h : continues (extend (some text) line) <;> simp [joins, h]

theorem overlong_eq_none {line : List Char} (h : line.length ≤ maxLineLength) :
    overlong line = none := if_pos h

/-- The joined lines of a text are its logical lines, and a fault for the one left open. -/
theorem join_eq (number : Nat) (open_ : Option (Nat × Backlog Char)) (lines : List (List Char))
    (hfits : ∀ text ∈ joins (open_.map fun line => (reading line).2) lines,
      text.length ≤ maxLineLength) :
    join number open_ lines =
      (logical number (open_.map reading) lines).1.map (fun line => ⟨line.1, .ok line.2⟩) ++
        ((logical number (open_.map reading) lines).2.map fun line =>
          ⟨line.1, .error (.continuationAtEnd line.1)⟩).toList := by
  fun_induction join number open_ lines with
  -- no line is open in cases 3 to 5, one is in cases 6 to 8; the next one leaves it open, makes it
  -- too long, or ends it
  | case1 number => rfl
  | case2 number start newest => rfl
  | case3 number line rest text hcontinues ih =>
    have hopen : reading (number, Backlog.empty.pushAll text) = (number, text) := by simp [reading]
    simp only [Option.map_some, Option.map_none, hopen, joins, logical, extend, Option.getD_none,
      text, hcontinues, if_true] at ih hfits ⊢
    exact ih hfits
  | case4 number line rest text hcontinues kind hlong =>
    have hfits' := hfits text (by simp [joins, extend, text, hcontinues])
    rw [overlong_eq_none hfits'] at hlong
    cases hlong
  | case5 number line rest text hcontinues hshort ih =>
    simp only [Option.map_none, joins, logical, extend, Option.getD_none, text, hcontinues]
      at ih hfits ⊢
    rw [ih fun text htext => hfits text (List.mem_cons_of_mem _ htext)]
    rfl
  | case6 number start newest line rest newest' hlong =>
    have htext : newest'.toList.reverse = extend (some newest.toList.reverse) line :=
      reverse_tail_pushAll newest (Text.trim line)
    have hshort := hfits _ (extend_mem_joins newest.toList.reverse line rest)
    rw [← htext, List.length_reverse, ← newest'.size_eq] at hshort
    exact absurd hlong (Nat.not_lt_of_le hshort)
  | case7 number start newest line rest newest' hshort hcontinues ih =>
    have htext : newest'.toList.reverse = extend (some newest.toList.reverse) line :=
      reverse_tail_pushAll newest (Text.trim line)
    rw [← continues_reverse, htext] at hcontinues
    simp only [Option.map_some, reading, htext, joins, logical, Option.getD_some, hcontinues,
      if_true] at ih hfits ⊢
    exact ih fun text hmem => hfits text (List.mem_append_right _ hmem)
  | case8 number start newest line rest newest' hshort hcontinues ih =>
    have htext : newest'.toList.reverse = extend (some newest.toList.reverse) line :=
      reverse_tail_pushAll newest (Text.trim line)
    rw [← continues_reverse, htext] at hcontinues
    simp only [Option.map_some, Option.map_none, reading, htext, joins, logical, Option.getD_some,
      hcontinues] at ih hfits ⊢
    rw [ih fun text hmem => hfits text (List.mem_cons_of_mem _ hmem)]
    rfl

/-! ### One line -/

/-- A line that is a command: not blank, and with none of the three marks in front. -/
def IsCommand (text : List Char) : Prop := ∃ c rest, text = c :: rest ∧ c ∉ ['#', '/', '$']

/-- A line that can stand in a function. -/
structure Admissible (parse : String → Except CommandError (Chain V)) (text : List Char) : Prop where
  slash : text.head? ≠ some '/'
  template : ∀ rest, text = '$' :: rest →
    ∃ template : Template, template.Proper ∧ template.source = rest
  command : IsCommand text → ∃ chain, parse (String.ofList text) = .ok chain

/-- What a line is read as. -/
inductive Reads (parse : String → Except CommandError (Chain V)) :
    Numbered → Option (Item V) → Prop where
  | blank {number : Nat} : Reads parse (number, []) none
  | comment {number : Nat} {rest : List Char} : Reads parse (number, '#' :: rest) none
  | template {number : Nat} {rest : List Char} {template : Template}
      (hparse : Template.parse rest = .ok template) :
      Reads parse (number, '$' :: rest) (some (.template template number))
  | command {number : Nat} {text : List Char} {chain : Chain V} (hcommand : IsCommand text)
      (hparse : parse (String.ofList text) = .ok chain) :
      Reads parse (number, text) (some (.command chain))

variable {parse : String → Except CommandError (Chain V)} {number : Nat} {text rest : List Char}
  {line : Numbered} {item : Option (Item V)}

theorem line_cases (text : List Char) :
    text = [] ∨ (∃ rest, text = '#' :: rest) ∨ (∃ rest, text = '/' :: rest) ∨
      (∃ rest, text = '$' :: rest) ∨ IsCommand text := by
  cases text with
  | nil => exact .inl rfl
  | cons c rest =>
    by_cases hcomment : c = '#'
    · exact .inr (.inl ⟨rest, hcomment ▸ rfl⟩)
    · by_cases hslash : c = '/'
      · exact .inr (.inr (.inl ⟨rest, hslash ▸ rfl⟩))
      · by_cases hdollar : c = '$'
        · exact .inr (.inr (.inr (.inl ⟨rest, hdollar ▸ rfl⟩)))
        · exact .inr (.inr (.inr (.inr ⟨c, rest, rfl, by simp [hcomment, hslash, hdollar]⟩)))

theorem not_isCommand_nil : ¬IsCommand [] := fun ⟨_, _, h, _⟩ => nomatch h

theorem not_isCommand_cons {c : Char} (h : c ∈ ['#', '/', '$']) : ¬IsCommand (c :: rest) := by
  rintro ⟨c', rest', heq, hc⟩
  cases heq
  exact hc h

theorem readLine_template (number : Nat) (rest : List Char) :
    readLine parse number ('$' :: rest) =
      match Template.parse rest with
      | .ok template => .ok (some (.template template number))
      | .error e => .error (.badTemplate number (String.ofList rest) e.message) := rfl

theorem readLine_command (number : Nat) (h : IsCommand text) :
    readLine parse number text =
      match parse (String.ofList text) with
      | .ok chain => .ok (some (.command chain))
      | .error e => .error (.unparsable number e.describe) := by
  obtain ⟨c, rest, rfl, hc⟩ := h
  simp only [List.mem_cons, List.not_mem_nil, or_false, not_or] at hc
  unfold readLine
  split
  · next h => cases h
  · next h => exact absurd (List.cons.inj h).1 hc.1
  · next h => exact absurd (List.cons.inj h).1 hc.2.1
  · next h => exact absurd (List.cons.inj h).1 hc.2.2
  · rfl

theorem readLine_ok_iff : readLine parse line.1 line.2 = .ok item ↔ Reads parse line item := by
  constructor
  · obtain ⟨number, text⟩ := line
    intro h
    rcases line_cases text with rfl | ⟨rest, rfl⟩ | ⟨rest, rfl⟩ | ⟨rest, rfl⟩ | hcommand
    · cases h
      exact .blank
    · cases h
      exact .comment
    · cases h
    · simp only [readLine_template] at h
      split at h
      · next hparse =>
        cases h
        exact .template hparse
      · cases h
    · simp only [readLine_command number hcommand] at h
      split at h
      · next hparse =>
        cases h
        exact .command hcommand hparse
      · cases h
  · intro h
    cases h with
    | blank => rfl
    | comment => rfl
    | template hparse => simp only [readLine_template, hparse]
    | command hcommand hparse => simp only [readLine_command _ hcommand, hparse]

theorem Reads.admissible (h : Reads parse (number, text) item) : Admissible parse text := by
  cases h with
  | blank => exact ⟨by simp, fun _ h => (nomatch h), fun h => absurd h not_isCommand_nil⟩
  | comment =>
    exact ⟨by simp, fun _ h => absurd (List.cons.inj h).1 (by decide),
      fun h => absurd h (not_isCommand_cons (by decide))⟩
  | template hparse =>
    refine ⟨by simp, fun rest' heq => ?_, fun h => absurd h (not_isCommand_cons (by decide))⟩
    cases heq
    exact ⟨_, Template.parse_ok_iff.mp hparse⟩
  | command hcommand hparse =>
    refine ⟨fun hslash => ?_, fun rest heq => ?_, fun _ => ⟨_, hparse⟩⟩
    · obtain ⟨c, rest, rfl, hc⟩ := hcommand
      cases hslash
      exact hc (by decide)
    · exact absurd (heq ▸ hcommand) (not_isCommand_cons (by decide))

theorem Admissible.reads (number : Nat) (h : Admissible parse text) :
    ∃ item, Reads parse (number, text) item := by
  rcases line_cases text with rfl | ⟨rest, rfl⟩ | ⟨rest, rfl⟩ | ⟨rest, rfl⟩ | hcommand
  · exact ⟨none, .blank⟩
  · exact ⟨none, .comment⟩
  · exact absurd rfl h.slash
  · obtain ⟨template, hparse⟩ := h.template rest rfl
    exact ⟨_, .template (Template.parse_ok_iff.mpr hparse)⟩
  · obtain ⟨chain, hparse⟩ := h.command hcommand
    exact ⟨_, .command hcommand hparse⟩

/-! ### All lines -/

/-- Whether a line is neither blank nor a comment. -/
def contributes (line : Numbered) : Bool := line.2.head?.any (· != '#')

theorem Reads.isSome_eq (h : Reads parse line item) : item.isSome = contributes line := by
  cases h with
  | blank => rfl
  | comment => rfl
  | template hparse => rfl
  | command hcommand hparse =>
    obtain ⟨c, rest, rfl, hc⟩ := hcommand
    have hne : c ≠ '#' := fun h => hc (h ▸ List.mem_cons_self)
    simp [contributes, hne]

/-- Turning every item of a list into something is turning each of them. -/
theorem mapM_ok_iff {ε α β : Type} {f : α → Except ε β} {as : List α} {bs : List β} :
    as.mapM f = .ok bs ↔ List.Forall₂ (fun a b => f a = .ok b) as bs := by
  induction as generalizing bs with
  | nil =>
    constructor
    · intro h
      cases h
      exact .nil
    · intro h
      cases h
      rfl
  | cons a as ih =>
    rw [List.mapM_cons]
    constructor
    · intro h
      cases hfirst : f a with
      | error e =>
        rw [hfirst] at h
        cases h
      | ok b =>
        cases hrest : as.mapM f with
        | error e =>
          rw [hfirst, hrest] at h
          cases h
        | ok rest =>
          rw [hfirst, hrest] at h
          cases h
          exact .cons hfirst (ih.mp hrest)
    · intro h
      cases h with
      | cons hfirst hrest =>
        rw [hfirst, ih.mpr hrest]
        rfl

variable {id : String} {lines : List Numbered} {items : List (Option (Item V))}

theorem readJoined_ok_iff :
    readJoined parse id ⟨line.1, .ok line.2⟩ = .ok item ↔ Reads parse line item := by
  rw [← readLine_ok_iff]
  unfold readJoined
  dsimp only
  cases readLine parse line.1 line.2 with
  | error kind => exact iff_of_false (fun h => nomatch h) (fun h => nomatch h)
  | ok item' => simp

/-- Reading the joined lines of a text: each logical line is read, and none is left open. -/
theorem mapM_readJoined_iff {left : Option Numbered} :
    (lines.map (fun line => (⟨line.1, .ok line.2⟩ : Joined)) ++ (left.map fun line =>
        (⟨line.1, .error (.continuationAtEnd line.1)⟩ : Joined)).toList).mapM
      (readJoined parse id) = .ok items ↔ left = none ∧ List.Forall₂ (Reads parse) lines items := by
  cases left with
  | none =>
    simp only [Option.map_none, Option.toList_none, List.append_nil, mapM_ok_iff,
      List.forall₂_map_left_iff, readJoined_ok_iff, true_and]
  | some line =>
    refine iff_of_false (fun h => ?_) fun h => nomatch h.1
    rw [List.mapM_append] at h
    cases hlines : (lines.map fun line => (⟨line.1, .ok line.2⟩ : Joined)).mapM
        (readJoined parse id) with
    | error fault =>
      rw [hlines] at h
      cases h
    | ok items =>
      rw [hlines] at h
      cases h

/-- A text is read if every logical line is admissible. -/
theorem forall₂_reads_iff :
    (∃ items, List.Forall₂ (Reads parse) lines items) ↔ ∀ line ∈ lines, Admissible parse line.2 := by
  constructor
  · rintro ⟨items, h⟩
    induction h with
    | nil => exact fun _ hline => absurd hline List.not_mem_nil
    | cons hfirst _ ih => exact List.forall_mem_cons.mpr ⟨hfirst.admissible, ih⟩
  · intro h
    induction lines with
    | nil => exact ⟨[], .nil⟩
    | cons line rest ih =>
      obtain ⟨hfirst, hrest⟩ := List.forall_mem_cons.mp h
      obtain ⟨item, hitem⟩ := hfirst.reads line.1
      obtain ⟨items, hitems⟩ := ih hrest
      exact ⟨item :: items, .cons hitem hitems⟩

/-- The items come from the lines that contribute, one from each. -/
theorem items_of_reads (h : List.Forall₂ (Reads parse) lines items) :
    List.Forall₂ (fun line item => Reads parse line (some item)) (lines.filter contributes)
      (items.filterMap fun item => item) := by
  induction h with
  | nil => exact .nil
  | @cons line item lines items hfirst _ ih =>
    have hsome := hfirst.isSome_eq
    cases item with
    | none =>
      rw [List.filter_cons_of_neg (by rw [← hsome]; simp)]
      exact ih
    | some item =>
      rw [List.filter_cons_of_pos hsome.symm]
      exact .cons hfirst ih

/-! ### What a function is made of -/

/-- The logical line of a template starts with this mark. -/
def isTemplate (line : Numbered) : Bool := line.2.head? == some '$'

/-- What a line of a function is made of: the chain of a command, which keeps the line's text, or
the template that stands for the line after its mark, with the place of each of its variables among
the parameters. -/
inductive Becomes (parse : String → Except CommandError (Chain V)) (parameters : List String) :
    Numbered → TemplatedLine V → Prop where
  | command {number : Nat} {text : List Char} {chain : Chain V} (hcommand : IsCommand text)
      (hparse : parse (String.ofList text) = .ok chain) (hinput : chain.input = String.ofList text) :
      Becomes parse parameters (number, text) (.plain chain)
  | template {number : Nat} {rest : List Char} {template : Template} {slots : List Nat}
      (hproper : template.Proper) (hsource : template.source = rest)
      (hslots : slots.map (parameters[·]?) = template.names.map some) :
      Becomes parse parameters (number, '$' :: rest) (.template template slots number)

/-- The names of all variables of a function, as they appear. -/
def variableNames (lines : List (TemplatedLine V)) : List String :=
  lines.flatMap fun
    | .plain _ => []
    | .template template _ _ => template.names

/-- Each name once, in the order of first appearance. -/
structure FirstSeen (names distinct : List String) : Prop where
  mem_iff : ∀ name, name ∈ distinct ↔ name ∈ names
  inOrder : (distinct.map names.idxOf).Pairwise (· < ·)

/-- A function that is made of logical lines, one line for each that contributes. -/
inductive MadeOf (parse : String → Except CommandError (Chain V)) (id : String) (permission : Nat)
    (lines : List Numbered) : Function V → Prop where
  | plain {chains : List (Chain V)} (hnone : ∀ line ∈ lines, isTemplate line = false)
      (hlines : List.Forall₂ (Becomes parse []) (lines.filter contributes)
        (chains.map TemplatedLine.plain)) :
      MadeOf parse id permission lines (.plain ⟨id, chains, 0⟩)
  | templated {t : Templated V} (hid : t.id = id) (hpermission : t.permission = permission)
      (hsome : ∃ line ∈ lines, isTemplate line = true)
      (hlines : List.Forall₂ (Becomes parse t.parameters) (lines.filter contributes) t.lines)
      (hparameters : FirstSeen (variableNames t.lines) t.parameters) :
      MadeOf parse id permission lines (.templated t)

theorem firstSeen_eraseDups (names : List String) : FirstSeen names names.eraseDups := by
  refine ⟨fun name => List.mem_eraseDups, ?_⟩
  induction names using List.reverseRecOn with
  | nil => exact .nil
  | append_singleton names name ih =>
    have hidx : ∀ earlier ∈ names.eraseDups, (names ++ [name]).idxOf earlier = names.idxOf earlier :=
      fun earlier hmem => by rw [List.idxOf_append, if_pos (List.mem_eraseDups.mp hmem)]
    have hsame : names.eraseDups.map (names ++ [name]).idxOf = names.eraseDups.map names.idxOf :=
      List.map_congr_left hidx
    rw [List.eraseDups_append]
    by_cases hmem : name ∈ names
    · have hnothing : [name].removeAll names = [] := by simp [List.removeAll, hmem]
      rw [hnothing, List.eraseDups_nil, List.append_nil, hsame]
      exact ih
    · have hone : [name].removeAll names = [name] := by simp [List.removeAll, hmem]
      have hlast : (names ++ [name]).idxOf name = names.length := by
        rw [List.idxOf_append, if_neg hmem, List.idxOf_cons_self, Nat.zero_add]
      have hdistinct : [name].eraseDups = [name] := rfl
      rw [hone, hdistinct, List.map_append, hsame, List.map_singleton, hlast]
      refine List.pairwise_append.mpr ⟨ih, List.pairwise_singleton .., fun place hplace last hlast => ?_⟩
      obtain ⟨earlier, hearlier, rfl⟩ := List.mem_map.mp hplace
      rw [List.mem_singleton.mp hlast]
      exact List.idxOf_lt_length_of_mem (List.mem_eraseDups.mp hearlier)

theorem chains?_command (chain : Chain V) (items : List (Item V)) :
    chains? (.command chain :: items) = (chains? items).map (chain :: ·) := by
  unfold chains?
  rw [List.mapM_cons]
  cases List.mapM (m := Option) _ items <;> rfl

theorem chains?_template (template : Template) (number : Nat) (items : List (Item V)) :
    chains? (.template template number :: items) = none := by
  unfold chains?
  rw [List.mapM_cons]
  rfl

/-- Either all items are commands, or there is a template. -/
theorem chains?_cases (items : List (Item V)) :
    (∃ chains, items = chains.map .command ∧ chains? items = some chains) ∨
      (∃ template number, .template template number ∈ items) ∧ chains? items = none := by
  induction items with
  | nil => exact .inl ⟨[], rfl, rfl⟩
  | cons item items ih =>
    cases item with
    | template template number =>
      exact .inr ⟨⟨template, number, List.mem_cons_self⟩, chains?_template ..⟩
    | command chain =>
      rw [chains?_command]
      rcases ih with ⟨chains, rfl, hchains⟩ | ⟨⟨template, number, hmem⟩, hnone⟩
      · exact .inl ⟨chain :: chains, rfl, by rw [hchains]; rfl⟩
      · exact .inr ⟨⟨template, number, List.mem_cons_of_mem _ hmem⟩, by rw [hnone]; rfl⟩

variable {parameters : List String} {items : List (Item V)}

/-- A chain keeps the text it was read from. -/
def KeepsText (parse : String → Except CommandError (Chain V)) : Prop :=
  ∀ text chain, parse text = .ok chain → chain.input = text

theorem keepsText_parse (resolve : String → Except CommandError (List (Stage V))) :
    KeepsText (Chain.parse resolve) := by
  intro text chain h
  unfold Chain.parse at h
  split at h
  · cases h
  · next stages _ =>
    split at h
    · next hflatten =>
      cases h
      cases stages with
      | nil => cases hflatten
      | cons top after =>
        obtain ⟨-, heq⟩ := Option.ite_none_right_eq_some.mp hflatten
        cases heq
        rfl
    · cases h

theorem Reads.isTemplate_iff {item : Item V} (h : Reads parse line (some item)) :
    isTemplate line = true ↔ ∀ chain, item ≠ .command chain := by
  cases h with
  | template hparse => exact iff_of_true rfl fun _ h => nomatch h
  | command hcommand hparse =>
    refine iff_of_false (fun hmark => ?_) fun h => h _ rfl
    obtain ⟨c, rest, rfl, hc⟩ := hcommand
    simp only [isTemplate, List.head?_cons, beq_iff_eq, Option.some.injEq] at hmark
    exact hc (by simp [hmark])

theorem Reads.becomes {item : Item V} (h : Reads parse line (some item)) (hkeeps : KeepsText parse)
    (hnames : ∀ template number, item = .template template number →
      ∀ name ∈ template.names, name ∈ parameters) :
    Becomes parse parameters line (templatedLine parameters item) := by
  cases h with
  | command hcommand hparse => exact .command hcommand hparse (hkeeps _ _ hparse)
  | @template number rest template hparse =>
    refine .template (Template.proper_of_parse hparse) (Template.source_of_parse hparse) ?_
    rw [List.map_map]
    refine List.map_congr_left fun name hname => ?_
    exact List.getElem?_idxOf (hnames template number rfl name hname)

theorem variableNames_templatedLine (parameters : List String) (items : List (Item V)) :
    (variableNames (items.map (templatedLine parameters))).eraseDups = parametersOf items := by
  unfold variableNames parametersOf
  rw [List.flatMap_map]
  refine congrArg (fun f => (items.flatMap f).eraseDups) (funext fun item => ?_)
  cases item with
  | command chain => rfl
  | template template line => rfl

theorem contributes_of_isTemplate (h : isTemplate line = true) : contributes line = true := by
  rw [isTemplate, beq_iff_eq] at h
  simp [contributes, h]

theorem exists_mem_of_forall₂ {α β : Type} {R : α → β → Prop} {as : List α} {bs : List β} {a : α}
    (h : List.Forall₂ R as bs) (ha : a ∈ as) : ∃ b ∈ bs, R a b := by
  induction h with
  | nil => cases ha
  | @cons a' b as bs hfirst _ ih =>
    rcases List.mem_cons.mp ha with rfl | ha
    · exact ⟨b, List.mem_cons_self, hfirst⟩
    · obtain ⟨b', hb', hR⟩ := ih ha
      exact ⟨b', List.mem_cons_of_mem _ hb', hR⟩

theorem mem_of_forall₂ {α β : Type} {R : α → β → Prop} {as : List α} {bs : List β}
    (h : List.Forall₂ R as bs) : List.Forall₂ (fun a b => b ∈ bs ∧ R a b) as bs := by
  induction h with
  | nil => exact .nil
  | cons hfirst _ ih =>
    refine .cons ⟨List.mem_cons_self, hfirst⟩ (ih.imp ?_)
    exact fun _ _ h => ⟨List.mem_cons_of_mem _ h.1, h.2⟩

/-- What is assembled of items is made of the lines they were read from. -/
theorem madeOf_assemble (id : String) (permission : Nat) (hkeeps : KeepsText parse)
    (h : List.Forall₂ (fun line item => Reads parse line (some item)) (lines.filter contributes)
      items) :
    MadeOf parse id permission lines (assemble id permission items) := by
  unfold assemble
  rcases chains?_cases items with ⟨chains, rfl, hchains⟩ | ⟨⟨template, number, hmem⟩, hnone⟩
  · rw [hchains]
    refine .plain (fun line hline => Bool.eq_false_iff.mpr fun hmark => ?_) ?_
    · obtain ⟨item, hitem, hreads⟩ := exists_mem_of_forall₂ h
        (List.mem_filter.mpr ⟨hline, contributes_of_isTemplate hmark⟩)
      obtain ⟨chain, -, rfl⟩ := List.mem_map.mp hitem
      exact hreads.isTemplate_iff.mp hmark chain rfl
    · rw [List.forall₂_map_right_iff] at h ⊢
      exact h.imp fun line chain hreads => hreads.becomes hkeeps fun _ _ h => nomatch h
  · rw [hnone]
    refine .templated rfl rfl ?_ ?_ ?_
    · obtain ⟨line, hline, hreads⟩ := exists_mem_of_forall₂ h.flip hmem
      exact ⟨line, (List.mem_filter.mp hline).1, hreads.isTemplate_iff.mpr fun _ h => nomatch h⟩
    · rw [List.forall₂_map_right_iff]
      refine (mem_of_forall₂ h).imp fun line item hreads => ?_
      exact hreads.2.becomes hkeeps fun template number heq name =>
        mem_parametersOf (heq ▸ hreads.1)
    · have hseen := firstSeen_eraseDups (variableNames (items.map (templatedLine (parametersOf items))))
      rw [variableNames_templatedLine] at hseen
      exact hseen

/-- Whether a function is a fixed body shows in its lines. -/
theorem MadeOf.plain_iff {id : String} {permission : Nat} {f : Function V}
    (h : MadeOf parse id permission lines f) :
    (∃ body, f = .plain body) ↔ ∀ line ∈ lines, isTemplate line = false := by
  cases h with
  | plain hnone => exact iff_of_true ⟨_, rfl⟩ hnone
  | templated _ _ hsome =>
    obtain ⟨line, hline, hmark⟩ := hsome
    exact iff_of_false (fun ⟨_, h⟩ => nomatch h) fun hnone =>
      Bool.noConfusion (hmark.symm.trans (hnone line hline))

/-- A text compiles to what is assembled of its logical lines, if none is left open and all can be
read. -/
theorem compile_iff_reads {parse : Nat → String → Except CommandError (Chain V)} {id : String}
    {permission : Nat} {lines : List String}
    (hfits : ∀ text ∈ joins none (lines.map String.toList), text.length ≤ maxLineLength)
    (f : Function V) :
    Function.compile parse id permission lines = .ok f ↔
      ∃ items, (logical 1 none (lines.map String.toList)).2 = none ∧
        List.Forall₂ (Reads (parse permission)) (logical 1 none (lines.map String.toList)).1 items ∧
        assemble id permission (items.filterMap fun item => item) = f := by
  unfold Function.compile
  dsimp only
  rw [join_eq 1 none _ hfits]
  constructor
  · intro h
    obtain ⟨items, hitems, hf⟩ := Command.ok_of_bind h
    obtain ⟨hclosed, hreads⟩ := mapM_readJoined_iff.mp hitems
    exact ⟨items, hclosed, hreads, Except.ok.inj hf⟩
  · rintro ⟨items, hclosed, hreads, rfl⟩
    rw [Option.map_none, mapM_readJoined_iff.mpr ⟨hclosed, hreads⟩]
    rfl

end Compile

/-- Function texts are read line by line. If nothing that is put together of their lines is too
long, they compile if and only if no line is left open at the end and each logical line is
admissible; the function is a fixed body if and only if none of them is a template, and it is made
of the lines that contribute, in order. -/
theorem Function.compile_ok_iff {V : Vocabulary}
    (resolve : Nat → String → Except CommandError (List (Stage V))) (id : String)
    (permission : Nat) (lines : List String)
    (hfits : ∀ text ∈ Compile.joins none (lines.map String.toList), text.length ≤ maxLineLength) :
    ((∃ f, Function.compile (fun level => Chain.parse (resolve level)) id permission lines = .ok f) ↔
      (Compile.logical 1 none (lines.map String.toList)).2 = none ∧
        ∀ line ∈ (Compile.logical 1 none (lines.map String.toList)).1,
          Compile.Admissible (Chain.parse (resolve permission)) line.2) ∧
    ∀ f, Function.compile (fun level => Chain.parse (resolve level)) id permission lines = .ok f →
      ((∃ body, f = .plain body) ↔ ∀ line ∈ (Compile.logical 1 none (lines.map String.toList)).1,
        Compile.isTemplate line = false) ∧
      Compile.MadeOf (Chain.parse (resolve permission)) id permission
        (Compile.logical 1 none (lines.map String.toList)).1 f := by
  have hcompile : ∀ f, Function.compile (fun level => Chain.parse (resolve level)) id permission
      lines = .ok f ↔ ∃ items, (Compile.logical 1 none (lines.map String.toList)).2 = none ∧
        List.Forall₂ (Compile.Reads (Chain.parse (resolve permission)))
          (Compile.logical 1 none (lines.map String.toList)).1 items ∧
        Compile.assemble id permission (items.filterMap fun item => item) = f :=
    Compile.compile_iff_reads hfits
  refine ⟨⟨?_, ?_⟩, fun f hf => ?_⟩
  · rintro ⟨f, hf⟩
    obtain ⟨items, hclosed, hreads, -⟩ := (hcompile f).mp hf
    exact ⟨hclosed, Compile.forall₂_reads_iff.mp ⟨items, hreads⟩⟩
  · rintro ⟨hclosed, hadmissible⟩
    obtain ⟨items, hreads⟩ := Compile.forall₂_reads_iff.mpr hadmissible
    exact ⟨_, (hcompile _).mpr ⟨items, hclosed, hreads, rfl⟩⟩
  · obtain ⟨items, -, hreads, rfl⟩ := (hcompile f).mp hf
    have hmade := Compile.madeOf_assemble id permission (Compile.keepsText_parse (resolve permission))
      (Compile.items_of_reads hreads)
    exact ⟨hmade.plain_iff, hmade⟩

namespace Compile

/-- A command over two lines, a comment that takes the next line with it, a blank line and two
templates. -/
def letter : List String :=
  ["say hi \\", "  there", "# note \\", "skipped", "", "$say $(b) $(a)", "$say $(a)"]

example : logical 1 none (letter.map String.toList) =
    ([(1, "say hi there".toList), (3, "# note skipped".toList), (5, []),
      (6, "$say $(b) $(a)".toList), (7, "$say $(a)".toList)], none) := by decide

theorem letter_compiles :
    (∀ text ∈ joins none (letter.map String.toList), text.length ≤ maxLineLength) ∧
      ∃ f, Function.compile (fun level => Chain.parse (Command.resolve level)) "t:letter" 2 letter =
        .ok f ∧ ¬∃ body, f = .plain body := by
  refine ⟨by decide, ?_⟩
  have hmade := (Function.compile_ok_iff Command.resolve "t:letter" 2 letter (by decide)).2
  have hok : (Function.compile (fun level => Chain.parse (Command.resolve level)) "t:letter" 2
      letter).isOk = true := by decide
  cases hf : Function.compile (fun level => Chain.parse (Command.resolve level)) "t:letter" 2
      letter with
  | error fault =>
    rw [hf] at hok
    cases hok
  | ok f => exact ⟨f, rfl, fun hplain => absurd ((hmade f hf).1.mp hplain) (by decide)⟩

end Compile

end Trampoline
