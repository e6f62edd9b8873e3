import Mathlib.Data.List.Basic
import Trampoline.Proofs.Template

/-! Filling templates, and texts that are none.

`replace` puts something in the place of each variable of a text; it goes through the text
once and does not look at what it has put in. Filling a template is that replacement in the
line the template was read from (`fill_eq_replace`), so it does not matter how the reader
divides a line into texts and names. A text that is no template is refused for the first of
its variables that is not one, or because it has none (`parse_error_iff`). -/
namespace Trampoline.Template

/-! ### Replacing variables -/

/-- A text with other text in the place of its variables. `value` tells what is put in for a
variable, by its number and its name; `number` is the number of the next one. -/
def replace (value : Nat → String → String) (number : Nat) : List Char → List Char
  | [] => []
  | '$' :: '(' :: rest =>
    let name := rest.takeWhile (· != ')')
    (value number (String.ofList name)).toList ++
      replace value (number + 1) (rest.drop (name.length + 1))
  | c :: rest => c :: replace value number rest
termination_by cs => cs.length

/-- The names of the variables of a text, in order. -/
def namesIn : List Char → List String
  | [] => []
  | '$' :: '(' :: rest =>
    let name := rest.takeWhile (· != ')')
    String.ofList name :: namesIn (rest.drop (name.length + 1))
  | _ :: rest => namesIn rest
termination_by cs => cs.length

variable {value : Nat → String → String} {number : Nat} {text name rest : List Char}

theorem takeWhile_name (hname : ')' ∉ name) (rest : List Char) :
    (name ++ ')' :: rest).takeWhile (· != ')') = name := by
  have hall : ∀ c ∈ name, (c != ')') = true := fun c hc => by
    rw [bne_iff_ne]
    rintro rfl
    exact hname hc
  rw [List.takeWhile_append_of_pos hall, List.takeWhile_cons_of_neg (by simp), List.append_nil]

theorem drop_name (name rest : List Char) :
    (name ++ ')' :: rest).drop (name.length + 1) = rest := by
  rw [← List.drop_drop, List.drop_left]
  rfl

theorem replace_variable (hname : ')' ∉ name) :
    replace value number ('$' :: '(' :: (name ++ ')' :: rest)) =
      (value number (String.ofList name)).toList ++ replace value (number + 1) rest := by
  rw [replace, takeWhile_name hname, drop_name]

theorem namesIn_variable (hname : ')' ∉ name) :
    namesIn ('$' :: '(' :: (name ++ ')' :: rest)) = String.ofList name :: namesIn rest := by
  rw [namesIn, takeWhile_name hname, drop_name]

/-- A character of plain text does not start a variable. -/
theorem Plain.head_apart {c : Char} (h : Plain (c :: text)) (hrest : rest.head? ≠ some '(') :
    ∀ rest', c = '$' → text ++ rest ≠ '(' :: rest' := by
  intro rest' hc heq
  cases text with
  | nil => exact hrest (by rw [← List.nil_append rest, heq]; rfl)
  | cons c' text =>
    exact (plain_cons_iff.mp h).1 hc (congrArg some (List.cons.inj heq).1)

theorem replace_plain (hplain : Plain text) (hrest : rest.head? ≠ some '(') :
    replace value number (text ++ rest) = text ++ replace value number rest := by
  induction text with
  | nil => rfl
  | cons c text ih =>
    rw [List.cons_append, replace.eq_3 _ _ _ _ (hplain.head_apart hrest),
      ih (plain_cons_iff.mp hplain).2]
    rfl

theorem namesIn_plain (hplain : Plain text) (hrest : rest.head? ≠ some '(') :
    namesIn (text ++ rest) = namesIn rest := by
  induction text with
  | nil => rfl
  | cons c text ih =>
    rw [List.cons_append, namesIn.eq_3 _ _ (hplain.head_apart hrest),
      ih (plain_cons_iff.mp hplain).2]

theorem replace_of_plain (hplain : Plain text) : replace value number text = text := by
  have h := @replace_plain value number text [] hplain nofun
  rw [List.append_nil, replace, List.append_nil] at h
  exact h

theorem namesIn_of_plain (hplain : Plain text) : namesIn text = [] := by
  have h := @namesIn_plain text [] hplain nofun
  rw [List.append_nil, namesIn] at h
  exact h

/-- A hole and what follows it, as characters. -/
theorem written_cons (hole : List Char × String) (holes : List (List Char × String))
    (tail : List Char) :
    written (hole :: holes) ++ tail =
      hole.1 ++ '$' :: '(' :: (hole.2.toList ++ ')' :: (written holes ++ tail)) := by
  simp [written]

/-! ### Filling -/

variable {holes : List (List Char × String)} {tail : List Char} {template : Template}

/-- Each variable gives way to its value, and the texts around them stay. -/
theorem replace_written (hholes : ∀ hole ∈ holes, ProperHole hole) (htail : Plain tail) :
    replace value number (written holes ++ tail) =
      (holes.zipIdx number).flatMap
        (fun hole => hole.1.1 ++ (value hole.2 hole.1.2).toList) ++ tail := by
  induction holes generalizing number with
  | nil => exact replace_of_plain htail
  | cons hole holes ih =>
    obtain ⟨⟨hplain, hname⟩, hholes⟩ := List.forall_mem_cons.mp hholes
    rw [written_cons, replace_plain hplain (by simp),
      replace_variable (close_not_mem_of_isName hname), ih hholes, List.zipIdx_cons,
      List.flatMap_cons, String.ofList_toList, List.append_assoc, List.append_assoc]

theorem namesIn_written (hholes : ∀ hole ∈ holes, ProperHole hole) (htail : Plain tail) :
    namesIn (written holes ++ tail) = holes.map Prod.snd := by
  induction holes with
  | nil => exact namesIn_of_plain htail
  | cons hole holes ih =>
    obtain ⟨⟨hplain, hname⟩, hholes⟩ := List.forall_mem_cons.mp hholes
    rw [written_cons, namesIn_plain hplain (by simp),
      namesIn_variable (close_not_mem_of_isName hname), ih hholes, List.map_cons,
      String.ofList_toList]

/-- The variables of a template are those of its line. -/
theorem Proper.namesIn_source (h : template.Proper) : namesIn template.source = template.names :=
  namesIn_written h.holes h.tail

/-- With one value for each variable, the text after the last one is not met again. -/
theorem fill_eq_flatMap {values : List String} (hlength : values.length = template.names.length) :
    template.fill values =
      (template.holes.zip values).flatMap (fun hole => hole.1.1 ++ hole.2.toList) ++
        template.tail := by
  have hzip : template.segments.zip values =
      (template.holes.map Prod.fst).zip (values.map id) := by
    rw [List.map_id, segments, ← List.append_nil values, List.zip_append, List.zip_nil_right,
      List.append_nil, List.append_nil]
    rw [List.length_map, hlength, names, List.length_map]
  rw [fill, hzip, List.zip_map, List.flatMap_map]
  rfl

/-- Filling a template is replacing the variables of its line. -/
theorem fill_eq_replace (h : template.Proper) {values : List String}
    (hlength : values.length = template.names.length)
    (hvalues : ∀ i name, template.names[i]? = some name → values[i]? = some (value i name)) :
    template.fill values = replace value 0 template.source := by
  have hlengths : values.length = template.holes.length := by
    rw [hlength, names, List.length_map]
  have hzip : template.holes.zip values =
      template.holes.zipIdx.map fun hole => (hole.1, value hole.2 hole.1.2) := by
    refine List.ext_getElem (by simp [hlengths]) fun i hi _ => ?_
    rw [List.length_zip, hlengths, Nat.min_self] at hi
    have hvalue := hvalues i template.holes[i].2 (by simp [names, hi])
    rw [List.getElem?_eq_getElem (hlengths ▸ hi), Option.some.injEq] at hvalue
    simp [hvalue]
  rw [fill_eq_flatMap hlength, hzip, List.flatMap_map]
  exact (replace_written h.holes h.tail).symm

/-! ### Texts that are no templates -/

/-- Why a text is no template: nothing in it starts a variable, or else the first variable that is
not one, with good ones before it, is left open or is closed around something that is no name. -/
inductive Refused : List Char → TemplateError → Prop where
  | noVariables {text : List Char} (htext : Plain text) : Refused text .noVariables
  | unterminated {holes : List (List Char × String)} {text rest : List Char}
      (hholes : ∀ hole ∈ holes, ProperHole hole) (htext : Plain text) (hopen : ')' ∉ rest) :
      Refused (written holes ++ (text ++ '$' :: '(' :: rest)) .unterminated
  | invalidName {holes : List (List Char × String)} {text name rest : List Char}
      (hholes : ∀ hole ∈ holes, ProperHole hole) (htext : Plain text) (hclosed : ')' ∉ name)
      (hname : isName name = false) :
      Refused (written holes ++ (text ++ '$' :: '(' :: (name ++ ')' :: rest)))
        (.invalidName (String.ofList name))

/-- What is refused is refused for what has been read and what is left, in plain text and in a
name. -/
theorem refused_scan :
    (∀ holes text cs e, scanText holes text cs = .error e → Apart text cs → Plain text.reverse →
      (∀ hole ∈ holes, ProperHole hole) →
      Refused (written holes.reverse ++ (text.reverse ++ cs)) e) ∧
    ∀ holes text name cs e, scanName holes text name cs = .error e → Plain text →
      (∀ hole ∈ holes, ProperHole hole) → ')' ∉ name →
      Refused (written holes.reverse ++ (text ++ '$' :: '(' :: (name.reverse ++ cs))) e := by
  apply scanText.mutual_induct
  -- in plain text: the end, a variable, another character
  case case1 =>
    intro holes text hempty e h _ hplain _
    rw [scanText, if_pos hempty] at h
    cases h
    rw [List.isEmpty_iff.mp hempty, List.append_nil]
    exact .noVariables hplain
  case case2 =>
    intro holes text hsome e h
    rw [scanText, if_neg hsome] at h
    cases h
  case case3 =>
    intro holes text rest ih e h _ hplain hholes
    rw [scanText] at h
    exact ih e h hplain hholes List.not_mem_nil
  case case4 =>
    intro holes text c rest hopen ih e h hapart hplain hholes
    rw [scanText.eq_3 _ _ _ _ hopen] at h
    obtain ⟨hapart, hplain⟩ := hapart.step hplain hopen
    have hrefused := ih e h hapart hplain hholes
    rw [List.reverse_cons, List.append_assoc] at hrefused
    exact hrefused
  -- in a name: the end, the closing parenthesis, another character
  case case5 =>
    intro holes text name e h hplain hholes hclosed
    rw [scanName] at h
    cases h
    rw [List.append_nil]
    exact .unterminated (fun hole hhole => hholes hole (List.mem_reverse.mp hhole)) hplain
      fun hmem => hclosed (List.mem_reverse.mp hmem)
  case case6 =>
    intro holes text name rest name' hname ih e h hplain hholes _
    rw [scanName, if_pos hname] at h
    have hhole : ProperHole (text, String.ofList name') :=
      ⟨hplain, by rw [String.toList_ofList]; exact hname⟩
    have hrefused := ih e h (apart_nil _) plain_nil (List.forall_mem_cons.mpr ⟨hhole, hholes⟩)
    rw [List.reverse_cons, written_append, List.append_assoc] at hrefused
    simpa [written, name'] using hrefused
  case case7 =>
    intro holes text name rest name' hname e h hplain hholes hclosed
    rw [scanName, if_neg hname] at h
    cases h
    exact .invalidName (fun hole hhole => hholes hole (List.mem_reverse.mp hhole)) hplain
      (fun hmem => hclosed (List.mem_reverse.mp hmem)) (Bool.eq_false_iff.mpr hname)
  case case8 =>
    intro holes text name c rest hopen ih e h hplain hholes hclosed
    rw [scanName.eq_3 _ _ _ _ _ hopen] at h
    have hrefused := ih e h hplain hholes (List.not_mem_cons_of_ne_of_not_mem (Ne.symm hopen) hclosed)
    rw [List.reverse_cons, List.append_assoc] at hrefused
    exact hrefused

/-- A text that is refused for some reason is refused by the reader for that reason. -/
theorem parse_of_refused {cs : List Char} {e : TemplateError} (h : Refused cs e) :
    parse cs = .error e := by
  unfold parse
  cases h with
  | noVariables htext => exact scanText_end [] htext
  | @unterminated holes text rest hholes htext hopen =>
    rw [scanText_holes _ _ hholes, scanText_variable _ _ htext, ← List.append_nil rest,
      scanName_name _ _ _ _ _ hopen, scanName]
  | @invalidName holes text name rest hholes htext hclosed hname =>
    rw [scanText_holes _ _ hholes, scanText_variable _ _ htext, scanName_name _ _ _ _ _ hclosed,
      scanName, List.append_nil, List.reverse_reverse, if_neg (Bool.eq_false_iff.mp hname)]

theorem parse_error_iff {cs : List Char} {e : TemplateError} : parse cs = .error e ↔ Refused cs e :=
  ⟨fun h => refused_scan.1 [] [] cs e h (apart_nil cs) plain_nil
    fun _ hhole => absurd hhole List.not_mem_nil, parse_of_refused⟩

/-- Names are not empty and hold letters, digits and underscores only. -/
theorem Proper.name_chars (h : template.Proper) {x : String} (hmem : x ∈ template.names) :
    x ≠ "" ∧ ∀ c ∈ x.toList, c.isAlphanum = true ∨ c = '_' := by
  obtain ⟨hole, hhole, rfl⟩ := List.mem_map.mp hmem
  have hname := (h.holes hole hhole).2
  rw [isName, Bool.and_eq_true, Bool.not_eq_true', List.isEmpty_eq_false_iff, List.all_eq_true]
    at hname
  refine ⟨fun hempty => hname.1 (by rw [hempty]; rfl), fun c hc => ?_⟩
  have hchar := hname.2 c hc
  rw [isNameChar, Bool.or_eq_true, beq_iff_eq] at hchar
  exact hchar

/-- **Templates are read in one way, and nothing of the text is lost.** What is read is the one
proper template that is written as the text; filling it with as many values as it has variables is
replacing those of the text, one after the other. A text that is no template is refused for the
first of its variables that is not one. -/
theorem parse_exact (cs : List Char) :
    (∀ template, parse cs = .ok template ↔ template.Proper ∧ template.source = cs) ∧
    (∀ template, parse cs = .ok template → template.names ≠ [] ∧
      (∀ name ∈ template.names, name ≠ "" ∧ ∀ c ∈ name.toList, c.isAlphanum = true ∨ c = '_') ∧
      ∀ values : List String, values.length = template.names.length →
        template.fill values = replace (fun i _ => values.getD i "") 0 cs) ∧
    ∀ e, parse cs = .error e ↔ Refused cs e := by
  refine ⟨fun template => parse_ok_iff, fun template hparse => ?_, fun e => parse_error_iff⟩
  obtain ⟨hproper, rfl⟩ := parse_ok_iff.mp hparse
  refine ⟨by simpa [names] using hproper.some, fun name => hproper.name_chars, fun values hlength => ?_⟩
  refine fill_eq_replace hproper hlength fun i name hname => ?_
  have hi : i < values.length := hlength ▸ (List.getElem?_eq_some_iff.mp hname).1
  simp [hi]

/-- Dollars that start no variable, two variables side by side, and a value that looks like one;
then a text whose second variable has a dash in its name. -/
theorem parse_exact_prices :
    (∃ template, parse "say $5 $$(a)$(b_2)$".toList = .ok template ∧
      template.source = "say $5 $$(a)$(b_2)$".toList ∧
      template.fill ["$(b_2)", "x"] = "say $5 $$(b_2)x$".toList) ∧
    parse "$(a) $(no-dash) $(open".toList = .error (.invalidName "no-dash") := by
  refine ⟨?_, ?_⟩
  · obtain ⟨template, hparse⟩ : ∃ template, parse "say $5 $$(a)$(b_2)$".toList = .ok template := ⟨_, rfl⟩
    obtain ⟨hiff, hread, -⟩ := parse_exact "say $5 $$(a)$(b_2)$".toList
    obtain ⟨-, -, hfill⟩ := hread template hparse
    refine ⟨template, hparse, ((hiff template).mp hparse).2, ?_⟩
    have hlength : ["$(b_2)", "x"].length = template.names.length := by
      cases hparse
      rfl
    rw [hfill _ hlength]
    simp [replace]
  · refine ((parse_exact _).2.2 _).mpr ?_
    exact @Refused.invalidName [([], "a")] [' '] "no-dash".toList " $(open".toList
      (List.forall_mem_singleton.mpr ⟨plain_nil, by decide⟩)
      (plain_cons_iff.mpr ⟨fun h => absurd h (by decide), plain_nil⟩) (by decide) (by decide)

end Trampoline.Template
