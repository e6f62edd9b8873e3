import Trampoline.Template

/-! The grammar of templates.

The reader moves characters from the line into holes and texts, and loses none: whatever
it has read so far, followed by what is left, is the line (`source_scan`); and what it
reads never holds a variable that was taken for text (`proper_scan`). In the other
direction, a proper template is read back from the line it stands for
(`parse_source`). So a line is a template in at most one way, and the reader finds it
(`parse_ok_iff`). -/
namespace Trampoline.Template

/-- The line that holes were read from. -/
def written (holes : List (List Char × String)) : List Char :=
  holes.flatMap fun (text, name) => text ++ '$' :: '(' :: (name.toList ++ [')'])

theorem written_append (first second : List (List Char × String)) :
    written (first ++ second) = written first ++ written second :=
  List.flatMap_append

/-- Nothing is lost on the way, in plain text or in a name. -/
theorem source_scan :
    (∀ holes text cs template, scanText holes text cs = .ok template →
      template.source = written holes.reverse ++ text.reverse ++ cs) ∧
    ∀ holes text name cs template, scanName holes text name cs = .ok template →
      template.source = written holes.reverse ++ text ++ '$' :: '(' :: (name.reverse ++ cs) := by
  apply scanText.mutual_induct
  -- plain text: its end without and with a variable before it, a variable, any other character
  case case1 =>
    intro holes text hempty template h
    rw [scanText, if_pos hempty] at h
    cases h
  case case2 =>
    intro holes text hsome template h
    rw [scanText, if_neg hsome] at h
    cases h
    rw [List.append_nil]
    rfl
  case case3 =>
    intro holes text rest ih template h
    rw [scanText] at h
    rw [ih template h, List.reverse_nil, List.nil_append]
  case case4 =>
    intro holes text c rest hplain ih template h
    rw [scanText.eq_3 _ _ _ _ hplain] at h
    simp [ih template h]
  -- a name: the end of the line, the end of a name that is allowed or not, any other character
  case case5 =>
    intro holes text name template h
    rw [scanName] at h
    cases h
  case case6 =>
    intro holes text name rest name' hname ih template h
    rw [scanName, if_pos hname] at h
    rw [ih template h]
    simp [written, name']
  case case7 =>
    intro holes text name rest name' hname template h
    rw [scanName, if_neg hname] at h
    cases h
  case case8 =>
    intro holes text name c rest hopen ih template h
    rw [scanName.eq_3 _ _ _ _ _ hopen] at h
    simp [ih template h]

/-- A template is written back as the line it was read from. -/
theorem source_of_parse {cs : List Char} {template : Template} (h : parse cs = .ok template) :
    template.source = cs :=
  source_scan.1 [] [] cs template h

/-! ### Proper templates -/

/-- Text without the start of a variable. -/
def Plain (text : List Char) : Prop := ¬['$', '('] <:+: text

/-- Texts are plain and names are names. -/
def ProperHole (hole : List Char × String) : Prop := Plain hole.1 ∧ isName hole.2.toList = true

/-- A template that a line can stand for: it has a variable, and everything in it is what it is
taken for. -/
structure Proper (t : Template) : Prop where
  some : t.holes ≠ []
  holes : ∀ hole ∈ t.holes, ProperHole hole
  tail : Plain t.tail

theorem plain_nil : Plain [] := fun h => nomatch List.eq_nil_of_infix_nil h

theorem plain_cons_iff {c : Char} {text : List Char} :
    Plain (c :: text) ↔ (c = '$' → text.head? ≠ some '(') ∧ Plain text := by
  unfold Plain
  rw [List.infix_cons_iff, not_or]
  refine and_congr_left fun _ => ⟨fun h hc hhead => ?_, fun h hprefix => ?_⟩
  · obtain ⟨rest, rfl⟩ := List.head?_eq_some_iff.mp hhead
    exact h (hc ▸ ⟨rest, rfl⟩)
  · obtain ⟨rest, heq⟩ := hprefix
    cases heq
    exact h rfl rfl

theorem Plain.append_singleton {text : List Char} {c : Char} (h : Plain text)
    (hc : text.getLast? = some '$' → c ≠ '(') : Plain (text ++ [c]) := by
  induction text with
  | nil => exact plain_cons_iff.mpr ⟨fun _ => nofun, plain_nil⟩
  | cons c' text ih =>
    obtain ⟨hhead, hplain⟩ := plain_cons_iff.mp h
    cases text with
    | nil =>
      refine plain_cons_iff.mpr ⟨fun heq hc' => ?_, ih hplain fun h => nomatch h⟩
      exact hc (congrArg some heq) (Option.some.inj hc')
    | cons c'' text =>
      refine plain_cons_iff.mpr ⟨hhead, ih hplain fun hlast => hc ?_⟩
      rw [List.getLast?_cons_cons]
      exact hlast

/-- The text under way does not run into a variable it was part of. -/
def Apart (text cs : List Char) : Prop := text.head? = some '$' → cs.head? ≠ some '('

theorem apart_nil (cs : List Char) : Apart [] cs := fun hc => nomatch hc

/-- A character that starts no variable goes to the text under way. -/
theorem Apart.step {text rest : List Char} {c : Char} (hapart : Apart text (c :: rest))
    (hplain : Plain text.reverse) (hopen : ∀ rest', c = '$' → rest = '(' :: rest' → False) :
    Apart (c :: text) rest ∧ Plain (c :: text).reverse := by
  constructor
  · intro hc hrest
    obtain ⟨rest', rfl⟩ := List.head?_eq_some_iff.mp hrest
    exact hopen rest' (Option.some.inj hc) rfl
  · rw [List.reverse_cons]
    -- a dollar and a parenthesis would have been read as a variable
    refine hplain.append_singleton fun hlast hc => ?_
    rw [List.getLast?_reverse] at hlast
    exact hapart hlast (congrArg some hc)

/-- What is read is proper, in plain text and in a name. -/
theorem proper_scan :
    (∀ holes text cs template, scanText holes text cs = .ok template → Apart text cs →
      Plain text.reverse → (∀ hole ∈ holes, ProperHole hole) → template.Proper) ∧
    ∀ holes text name cs template, scanName holes text name cs = .ok template → Plain text →
      (∀ hole ∈ holes, ProperHole hole) → template.Proper := by
  apply scanText.mutual_induct
  case case1 =>
    intro holes text hempty template h
    rw [scanText, if_pos hempty] at h
    cases h
  case case2 =>
    intro holes text hsome template h _ hplain hholes
    rw [scanText, if_neg hsome] at h
    cases h
    refine ⟨fun hnil => hsome ?_, fun hole hhole => hholes hole (List.mem_reverse.mp hhole), hplain⟩
    rw [List.reverse_eq_nil_iff.mp hnil]
    rfl
  case case3 =>
    intro holes text rest ih template h _ hplain hholes
    rw [scanText] at h
    exact ih template h hplain hholes
  case case4 =>
    intro holes text c rest hopen ih template h hapart hplain hholes
    rw [scanText.eq_3 _ _ _ _ hopen] at h
    obtain ⟨hapart, hplain⟩ := hapart.step hplain hopen
    exact ih template h hapart hplain hholes
  case case5 =>
    intro holes text name template h
    rw [scanName] at h
    cases h
  case case6 =>
    intro holes text name rest name' hname ih template h hplain hholes
    rw [scanName, if_pos hname] at h
    refine ih template h (apart_nil _) plain_nil (List.forall_mem_cons.mpr ⟨⟨hplain, ?_⟩, hholes⟩)
    rw [String.toList_ofList]
    exact hname
  case case7 =>
    intro holes text name rest name' hname template h
    rw [scanName, if_neg hname] at h
    cases h
  case case8 =>
    intro holes text name c rest hopen ih template h
    rw [scanName.eq_3 _ _ _ _ _ hopen] at h
    exact ih template h

theorem proper_of_parse {cs : List Char} {template : Template} (h : parse cs = .ok template) :
    template.Proper :=
  proper_scan.1 [] [] cs template h (apart_nil cs) plain_nil
    fun _ hhole => absurd hhole List.not_mem_nil

/-! ### Reading back -/

theorem scanText_plain (holes : List (List Char × String)) (text plain rest : List Char)
    (hplain : Plain plain) (hrest : rest.head? ≠ some '(') :
    scanText holes text (plain ++ rest) = scanText holes (plain.reverse ++ text) rest := by
  induction plain generalizing text with
  | nil => rfl
  | cons c plain ih =>
    obtain ⟨hhead, hplain⟩ := plain_cons_iff.mp hplain
    have hopen : ∀ rest', c = '$' → plain ++ rest ≠ '(' :: rest' := by
      intro rest' hc heq
      cases plain with
      | nil => exact hrest (by rw [← List.nil_append rest, heq]; rfl)
      | cons c' plain => exact hhead hc (congrArg some (List.cons.inj heq).1)
    rw [List.cons_append, scanText.eq_3 _ _ _ _ hopen, ih _ hplain, List.reverse_cons,
      List.append_assoc]
    rfl

theorem isNameChar_ne_close {c : Char} (h : isNameChar c = true) : c ≠ ')' := by
  rintro rfl
  exact absurd h (by decide)

/-- A name does not hold the parenthesis that closes it. -/
theorem close_not_mem_of_isName {name : List Char} (h : isName name = true) : ')' ∉ name := by
  rw [isName, Bool.and_eq_true, List.all_eq_true] at h
  exact fun hmem => isNameChar_ne_close (h.2 _ hmem) rfl

theorem scanName_name (holes : List (List Char × String)) (text done name rest : List Char)
    (hname : ')' ∉ name) :
    scanName holes text done (name ++ rest) = scanName holes text (name.reverse ++ done) rest := by
  induction name generalizing done with
  | nil => rfl
  | cons c name ih =>
    rw [List.mem_cons, not_or] at hname
    rw [List.cons_append, scanName.eq_3 _ _ _ _ _ (Ne.symm hname.1), ih _ hname.2,
      List.reverse_cons, List.append_assoc]
    rfl

/-- Plain text up to a variable, which goes on with its name. -/
theorem scanText_variable (holes : List (List Char × String)) {text : List Char}
    (rest : List Char) (htext : Plain text) :
    scanText holes [] (text ++ '$' :: '(' :: rest) = scanName holes text [] rest := by
  rw [scanText_plain _ _ _ _ htext (by simp), scanText, List.append_nil, List.reverse_reverse]

theorem scanText_hole (holes : List (List Char × String)) {hole : List Char × String}
    (rest : List Char) (h : ProperHole hole) :
    scanText holes [] (written [hole] ++ rest) = scanText (hole :: holes) [] rest := by
  have hwritten : written [hole] ++ rest =
      hole.1 ++ '$' :: '(' :: (hole.2.toList ++ ')' :: rest) := by simp [written]
  rw [hwritten, scanText_variable _ _ h.1, scanName_name _ _ _ _ _ (close_not_mem_of_isName h.2),
    scanName, List.append_nil, List.reverse_reverse, if_pos h.2, String.ofList_toList]

/-- The holes still to come are read one after the other. -/
theorem scanText_holes (read : List (List Char × String)) {holes : List (List Char × String)}
    (rest : List Char) (hholes : ∀ hole ∈ holes, ProperHole hole) :
    scanText read [] (written holes ++ rest) = scanText (holes.reverse ++ read) [] rest := by
  induction holes generalizing read with
  | nil => rfl
  | cons hole holes ih =>
    obtain ⟨hhole, hholes⟩ := List.forall_mem_cons.mp hholes
    rw [← List.singleton_append, written_append, List.append_assoc, scanText_hole _ _ hhole,
      ih _ hholes, List.reverse_append, List.append_assoc]
    rfl

/-- At the end of the line, after plain text. -/
theorem scanText_end (holes : List (List Char × String)) {text : List Char} (htext : Plain text) :
    scanText holes [] text =
      if holes.isEmpty then .error .noVariables else .ok ⟨holes.reverse, text⟩ := by
  have hend := scanText_plain holes [] text [] htext (fun h => nomatch h)
  rw [List.append_nil, scanText, List.append_nil, List.reverse_reverse] at hend
  exact hend

/-- A proper template is read back from the line it stands for. -/
theorem parse_source {template : Template} (h : template.Proper) :
    parse template.source = .ok template := by
  have hsome : (template.holes.reverse ++ []).isEmpty = false := by simpa using h.some
  have hread := scanText_holes [] template.tail h.holes
  rw [scanText_end _ h.tail, hsome, List.append_nil, List.reverse_reverse] at hread
  exact hread

/-- The reader finds a template exactly where a proper one stands. -/
theorem parse_ok_iff {cs : List Char} {template : Template} :
    parse cs = .ok template ↔ template.Proper ∧ template.source = cs := by
  refine ⟨fun h => ⟨proper_of_parse h, source_of_parse h⟩, ?_⟩
  rintro ⟨hproper, rfl⟩
  exact parse_source hproper

end Trampoline.Template
