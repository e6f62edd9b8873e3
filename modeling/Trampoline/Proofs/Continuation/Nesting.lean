import Trampoline.Continuation
import Trampoline.Proofs.Compound.Reading

/-! What the scan makes of a compound.

The scan knows no grammar: it counts brackets of both kinds as one, and has its own idea of where
a quoted text ends. A text is `Balanced` if the scan ends at the depth where it began, with nothing
else open, and on the way is never less deep. A token is balanced, since both end a quoted text at
the same quote; so is whatever stands between brackets, by induction on the grammar of compounds
(`IsCompound.balanced`). Hence the bracket a compound begins with stays open up to its last
character (`Inside.below`). -/
namespace Trampoline

namespace Continuation

/-! ### Scanning on -/

/-- Nothing is open but brackets. -/
def Scan.level (depth : Int) : Scan := { depth }

def Scan.after (s : Scan) (cs : List Char) : Scan := cs.foldl Scan.step s

variable {a b cs u : List Char}

theorem scan_eq (cs : List Char) : scan cs = (Scan.level 0).after cs := rfl

theorem Scan.after_append (s : Scan) (a b : List Char) : s.after (a ++ b) = (s.after a).after b :=
  List.foldl_append

@[simp] theorem Scan.after_nil (s : Scan) : s.after [] = s := rfl

@[simp] theorem Scan.after_cons (s : Scan) (c : Char) (cs : List Char) :
    s.after (c :: cs) = (s.step c).after cs := rfl

/-- One character opens or closes one bracket at most. -/
theorem Scan.natAbs_depth_step (s : Scan) (c : Char) : ((s.step c).depth - s.depth).natAbs ≤ 1 := by
  unfold Scan.step
  repeat' split
  all_goals grind

theorem Scan.natAbs_depth_after (s : Scan) (cs : List Char) :
    ((s.after cs).depth - s.depth).natAbs ≤ cs.length := by
  induction cs generalizing s with
  | nil => simp
  | cons c cs ih =>
    have hrest := ih (s.step c)
    have hstep := s.natAbs_depth_step c
    rw [after_cons, List.length_cons]
    omega

/-- So the count of open brackets is never further from zero than there are characters. -/
theorem natAbs_depth_scan (cs : List Char) : (scan cs).depth.natAbs ≤ cs.length := by
  have h := (Scan.level 0).natAbs_depth_after cs
  rwa [← scan_eq, show (Scan.level 0).depth = 0 from rfl, Int.sub_zero] at h

/-- A signed counter of 32 bits holds it, whatever the input, as long as that has fewer than 2³¹
characters. -/
theorem toInt_ofInt_depth_scan (h : cs.length < 2147483648) :
    (Int32.ofInt (scan cs).depth).toInt = (scan cs).depth := by
  have hdepth := natAbs_depth_scan cs
  exact Int32.toInt_ofInt_of_le (by omega) (by omega)

/-! ### Balanced texts -/

structure Balanced (cs : List Char) : Prop where
  settled : ∀ d, (Scan.level d).after cs = .level d
  above : ∀ d u, u <+: cs → d ≤ ((Scan.level d).after u).depth

/-- A beginning of two texts ends in the first or comes into the second. -/
theorem prefix_append_cases (h : u <+: a ++ b) : u <+: a ∨ ∃ v, v <+: b ∧ u = a ++ v := by
  rcases List.prefix_or_prefix_of_prefix h (List.prefix_append a b) with h' | ⟨v, rfl⟩
  · exact .inl h'
  · exact .inr ⟨v, (List.prefix_append_right_inj a).mp h, rfl⟩

theorem Balanced.append (ha : Balanced a) (hb : Balanced b) : Balanced (a ++ b) where
  settled d := by rw [Scan.after_append, ha.settled, hb.settled]
  above d u hu := by
    rcases prefix_append_cases hu with hu | ⟨v, hv, rfl⟩
    · exact ha.above d u hu
    · rw [Scan.after_append, ha.settled]
      exact hb.above d v hv

/-- A character that neither opens nor closes anything. -/
def Inert (c : Char) : Prop := ∀ d, (Scan.level d).step c = .level d

theorem balanced_of_inert (h : ∀ c ∈ cs, Inert c) : Balanced cs := by
  have hafter : ∀ cs : List Char, (∀ c ∈ cs, Inert c) → ∀ d, (Scan.level d).after cs = .level d := by
    intro cs hcs d
    induction cs with
    | nil => rfl
    | cons c cs ih =>
      rw [Scan.after_cons, hcs c List.mem_cons_self]
      exact ih fun c' hc' => hcs c' (List.mem_cons_of_mem _ hc')
  refine ⟨hafter cs h, fun d u hu => ?_⟩
  rw [hafter u (fun c hc => h c (hu.subset hc)) d]
  exact Int.le_refl d

theorem inert_of_isBareChar {c : Char} (h : Value.isBareChar c = true) : Inert c := by
  intro d
  have hne : ∀ mark ∈ ['"', '\'', '\x7b', '[', '\x7d', ']'], c ≠ mark := by
    intro mark hmark
    refine Compound.ne_of_isBareChar h ?_
    simp only [List.mem_cons, List.not_mem_nil, or_false] at hmark
    rcases hmark with rfl | rfl | rfl | rfl | rfl | rfl <;> decide
  simp only [List.forall_mem_cons] at hne
  simp [Scan.step, Scan.level, hne]

theorem inert_comma : Inert ',' := fun _ => rfl

theorem inert_colon : Inert ':' := fun _ => rfl

theorem balanced_spaces {s : List Char} (hs : Compound.Spaces s) : Balanced s :=
  balanced_of_inert fun c hc => by rw [hs c hc]; exact fun _ => rfl

/-- A separator with spaces around it. -/
theorem balanced_separator {s s' : List Char} {c : Char} (hs : Compound.Spaces s)
    (hs' : Compound.Spaces s') (hc : Inert c) (ha : Balanced a) (hb : Balanced b) :
    Balanced (a ++ (s ++ c :: (s' ++ b))) := by
  have hcomma : Balanced [c] := balanced_of_inert fun c' hc' => List.mem_singleton.mp hc' ▸ hc
  exact ha.append ((balanced_spaces hs).append (hcomma.append ((balanced_spaces hs').append hb)))

/-! ### Quoted texts -/

/-- In a quoted text. -/
def Scan.quoting (depth : Int) (quote : Char) : Scan := { depth, quote := some quote }

/-- The scan leaves a quoted text where the reader does, and counts no brackets up to there. -/
theorem quoting_after {quote : Char} {written text : List Char} (hquote : quote ≠ '\\')
    (h : Compound.QuotedBody quote written text) (d : Int) :
    (Scan.quoting d quote).after written = .level d ∧
      ∀ u, u <+: written → ((Scan.quoting d quote).after u).depth = d := by
  induction h with
  | close =>
    have hclose : (Scan.quoting d quote).step quote = .level d := by
      simp [Scan.step, Scan.quoting, Scan.level, hquote]
    refine ⟨hclose, fun u hu => ?_⟩
    rcases List.prefix_cons_iff.mp hu with rfl | ⟨v, rfl, hv⟩
    · rfl
    · rw [List.prefix_nil.mp hv, Scan.after_cons, hclose]
      rfl
  | escaped c _ ih =>
    have hescape : ((Scan.quoting d quote).step '\\').step c = .quoting d quote := by
      simp [Scan.step, Scan.quoting]
    refine ⟨?_, fun u hu => ?_⟩
    · rw [Scan.after_cons, Scan.after_cons, hescape]
      exact ih.1
    · rcases List.prefix_cons_iff.mp hu with rfl | ⟨v, rfl, hv⟩
      · rfl
      · rcases List.prefix_cons_iff.mp hv with rfl | ⟨v', rfl, hv'⟩
        · simp [Scan.step, Scan.quoting]
        · rw [Scan.after_cons, Scan.after_cons, hescape]
          exact ih.2 v' hv'
  | @plain c written text hne hescape _ ih =>
    have hstep : (Scan.quoting d quote).step c = .quoting d quote := by
      simp [Scan.step, Scan.quoting, hne, hescape]
    refine ⟨?_, fun u hu => ?_⟩
    · rw [Scan.after_cons, hstep]
      exact ih.1
    · rcases List.prefix_cons_iff.mp hu with rfl | ⟨v, rfl, hv⟩
      · rfl
      · rw [Scan.after_cons, hstep]
        exact ih.2 v hv

theorem balanced_quoted {quote : Char} {written text : List Char} (hquote : quote = '"' ∨ quote = '\'')
    (h : Compound.QuotedBody quote written text) : Balanced (quote :: written) := by
  have hopen (d : Int) : (Scan.level d).step quote = .quoting d quote := by
    rcases hquote with rfl | rfl <;> rfl
  have hne : quote ≠ '\\' := by rcases hquote with rfl | rfl <;> decide
  refine ⟨fun d => ?_, fun d u hu => ?_⟩
  · rw [Scan.after_cons, hopen]
    exact (quoting_after hne h d).1
  · rcases List.prefix_cons_iff.mp hu with rfl | ⟨v, rfl, hv⟩
    · exact Int.le_refl d
    · rw [Scan.after_cons, hopen]
      exact Int.le_of_eq ((quoting_after hne h d).2 v hv).symm

theorem balanced_token {α : Type} {quoted bare : List Char → α} {written rest : List Char} {v : α}
    (h : Compound.IsToken quoted bare written v rest) : Balanced written := by
  cases h with
  | quoted hquote h => exact balanced_quoted hquote h
  | bare _ hbare _ => exact balanced_of_inert fun c hc => inert_of_isBareChar (hbare c hc)

/-! ### Brackets -/

/-- An opening bracket and balanced text behind it. -/
inductive Inside : List Char → Prop where
  | mk {bracket : Char} {inner : List Char} (hb : bracket = '\x7b' ∨ bracket = '[')
      (h : Balanced inner) : Inside (bracket :: inner)

theorem step_opening {bracket : Char} (hb : bracket = '\x7b' ∨ bracket = '[') (d : Int) :
    (Scan.level d).step bracket = .level (d + 1) := by
  rcases hb with rfl | rfl <;> rfl

theorem step_closing {bracket : Char} (hb : bracket = '\x7d' ∨ bracket = ']') (d : Int) :
    (Scan.level (d + 1)).step bracket = .level d := by
  rcases hb with rfl | rfl <;> exact congrArg Scan.level (Int.add_sub_cancel d 1)

/-- It stays open. -/
theorem Inside.below (h : Inside cs) (hu : u <+: cs) (hne : u ≠ []) (d : Int) :
    d + 1 ≤ ((Scan.level d).after u).depth := by
  obtain ⟨hb, hinner⟩ := h
  rcases List.prefix_cons_iff.mp hu with rfl | ⟨v, rfl, hv⟩
  · exact absurd rfl hne
  · rw [Scan.after_cons, step_opening hb]
    exact hinner.above (d + 1) v hv

theorem Inside.close (h : Inside cs) {bracket : Char} (hb : bracket = '\x7d' ∨ bracket = ']') :
    Balanced (cs ++ [bracket]) := by
  have hafter (d : Int) : (Scan.level d).after (cs ++ [bracket]) = .level d := by
    obtain ⟨hopening, hinner⟩ := h
    rw [List.cons_append, Scan.after_cons, step_opening hopening, Scan.after_append, hinner.settled,
      Scan.after_cons, step_closing hb, Scan.after_nil]
  refine ⟨hafter, fun d u hu => ?_⟩
  rcases List.prefix_concat_iff.mp hu with rfl | hu
  · rw [hafter]
    exact Int.le_refl d
  · by_cases hne : u = []
    · rw [hne]
      exact Int.le_refl d
    · have hbelow := h.below hu hne d
      omega

end Continuation

/-! ### Compounds -/

namespace Compound
open Continuation

mutual
theorem IsValue.balanced {text rest : List Char} {v : Value} : IsValue text v rest → Balanced text
  | .scalar h => balanced_token h
  | .compound h => by
    obtain ⟨s, inner, hs, rfl, hinner⟩ := h.exists_inside
    exact (balanced_spaces hs).append (hinner.close (.inl rfl))
  | .emptyList hs => (Inside.mk (.inr rfl) (balanced_spaces hs)).close (.inr rfl)
  | .list hs h => by
    obtain ⟨inner, rfl, hinner⟩ := h.exists_balanced
    rw [← List.append_assoc, ← List.cons_append]
    exact (Inside.mk (.inr rfl) ((balanced_spaces hs).append hinner)).close (.inr rfl)

theorem IsItems.exists_balanced {text rest : List Char} {items : List Value} :
    IsItems text items rest → ∃ inner, text = inner ++ [']'] ∧ Balanced inner
  | .last h hs => ⟨_, (List.append_assoc ..).symm, h.balanced.append (balanced_spaces hs)⟩
  | .more h hs hs' hmore => by
    have hfirst := h.balanced
    obtain ⟨inner, rfl, hinner⟩ := hmore.exists_balanced
    refine ⟨_, ?_, balanced_separator hs hs' inert_comma hfirst hinner⟩
    simp only [List.append_assoc, List.cons_append]

theorem IsPair.balanced {text rest : List Char} {key : String} {v : Value} :
    IsPair text key v rest → Balanced text
  | .mk hkey hs hs' h => balanced_separator hs hs' inert_colon (balanced_token hkey) h.balanced

theorem IsFields.exists_balanced {text rest : List Char} {fields : List (String × Value)} :
    IsFields text fields rest → ∃ inner, text = inner ++ ['\x7d'] ∧ Balanced inner
  | .last h hs => ⟨_, (List.append_assoc ..).symm, h.balanced.append (balanced_spaces hs)⟩
  | .more h hs hs' hmore => by
    have hfirst := h.balanced
    obtain ⟨inner, rfl, hinner⟩ := hmore.exists_balanced
    refine ⟨_, ?_, balanced_separator hs hs' inert_comma hfirst hinner⟩
    simp only [List.append_assoc, List.cons_append]

/-- Between its spaces in front and its last brace a compound is open. -/
theorem IsCompound.exists_inside {text rest : List Char} {fields : List (String × Value)} :
    IsCompound text fields rest →
      ∃ s inner, Spaces s ∧ text = s ++ (inner ++ ['\x7d']) ∧ Inside inner
  | .empty hs hs' => ⟨_, _, hs, rfl, .mk (.inl rfl) (balanced_spaces hs')⟩
  | .fields hs hs' h => by
    obtain ⟨inner, rfl, hinner⟩ := h.exists_balanced
    refine ⟨_, _, hs, ?_, .mk (.inl rfl) ((balanced_spaces hs').append hinner)⟩
    rw [List.cons_append, List.append_assoc]
end

theorem IsCompound.balanced {text rest : List Char} {fields : List (String × Value)}
    (h : IsCompound text fields rest) : Balanced text := by
  obtain ⟨s, inner, hs, rfl, hinner⟩ := h.exists_inside
  exact (balanced_spaces hs).append (hinner.close (.inl rfl))

end Compound

end Trampoline
