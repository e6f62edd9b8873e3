import Trampoline.Proofs.Command.Integrity
import Trampoline.Proofs.Function.Recall
import Trampoline.Proofs.NameMap

/-! Libraries whose functions keep different bodies.

A function without the bodies it keeps is as it was compiled (`unused`). Libraries are
alike if they are the same without all bodies kept, and come from compiled texts: then
a call gives bodies that read alike, or the same error, and leaves the libraries alike
(`Library.Alike.instantiate`). -/
namespace Trampoline

open Command (standard)

def Templated.unused {V : Vocabulary} (t : Templated V) : Templated V := { t with cache := [], made := 0 }

def Function.unused {V : Vocabulary} : Function V → Function V
  | .plain body => .plain body
  | .templated t => .templated t.unused

def Library.unused (l : Library) : Library := l.map fun (name, f) => (name, f.unused)

/-! ### Functions -/

namespace Templated

variable {V : Vocabulary} {parse : String → Except CommandError (Chain V)} {t t' : Templated V}

theorem content_built (parse : String → Except CommandError (Chain V)) (t : Templated V)
    (arguments : Option Record) :
    (t.unused.built parse arguments).map Body.content =
      (t.built parse arguments).map Body.content := by
  have hkey : t.unused.key arguments = t.key arguments := rfl
  unfold built
  rw [hkey]
  cases t.key arguments with
  | error e => rfl
  | ok values => exact content_build parse t [] 0 values

theorem unused_instantiate (parse : String → Except CommandError (Chain V)) (t : Templated V)
    (arguments : Option Record) : (t.instantiate parse arguments).2.unused = t.unused := by
  have hanswers := answers_instantiate parse t arguments
  generalize t.instantiate parse arguments = answer at hanswers
  cases hanswers with
  | refused _ => rfl
  | failed _ _ _ => rfl
  | held _ _ => rfl
  | made _ _ _ => rfl

theorem permission_instantiate (parse : String → Except CommandError (Chain V)) (t : Templated V)
    (arguments : Option Record) : (t.instantiate parse arguments).2.permission = t.permission := by
  have h := congrArg Templated.permission (unused_instantiate parse t arguments)
  exact h

theorem Became.unused {past : Ledger V} {now : Templated V} (h : Became parse t past now) :
    now.unused = t.unused := by
  obtain ⟨made, rfl⟩ := h.same
  rfl

end Templated

/-- A templated function that comes from a compiled text has become what it is by calls. -/
theorem Function.Compiled.became {f : Function standard} (h : f.Compiled) {t : Templated standard}
    (hf : f = .templated t) :
    ∃ text past, Templated.Became (Command.parse t.permission) text past t := by
  induction h generalizing t with
  | text h =>
    subst hf
    exact ⟨t, [], became_of_compile h⟩
  | @used f _ arguments ih =>
    -- a call adds to the ledger what it gave
    cases f with
    | plain body => cases hf
    | templated before =>
      have heq : (before.instantiate (Command.parse before.permission) arguments).2 = t :=
        Function.templated.inj hf
      obtain ⟨text, past, hbecame⟩ := ih rfl
      rw [← heq, Templated.permission_instantiate]
      exact ⟨text, _, (Templated.instantiate_keeps hbecame arguments).2.1⟩

/-- A call gives a body that reads as the one built for its arguments. -/
theorem Function.Compiled.content_instantiate {t : Templated standard}
    (h : (Function.templated t).Compiled) (arguments : Option Record) :
    (t.instantiate (Command.parse t.permission) arguments).1.map Body.content =
      (t.unused.built (Command.parse t.permission) arguments).map Body.content := by
  obtain ⟨text, past, hbecame⟩ := h.became rfl
  rw [(Templated.instantiate_keeps hbecame arguments).1, hbecame.unused, Templated.content_built]

/-- Functions that are the same without the bodies they keep give bodies that read alike, and remain
so. -/
theorem Function.instantiate_alike {f f' : Function standard} (hf : f.Compiled) (hf' : f'.Compiled)
    (h : f.unused = f'.unused) (arguments : Option Record) :
    (f.instantiate Command.parse arguments).1.map Body.content =
        (f'.instantiate Command.parse arguments).1.map Body.content ∧
      (f.instantiate Command.parse arguments).2.unused =
        (f'.instantiate Command.parse arguments).2.unused := by
  match f, f' with
  | .plain body, .plain body' =>
    cases h
    exact ⟨rfl, rfl⟩
  | .plain _, .templated _ => cases h
  | .templated _, .plain _ => cases h
  | .templated t, .templated t' =>
    have hsame : t.unused = t'.unused := Function.templated.inj h
    have hpermission : t.permission = t'.permission := by
      have h := congrArg Templated.permission hsame
      exact h
    have hbody := hf.content_instantiate arguments
    have hbody' := hf'.content_instantiate arguments
    rw [← hpermission, ← hsame] at hbody'
    have hleft := Templated.unused_instantiate (Command.parse t.permission) t arguments
    have hright := Templated.unused_instantiate (Command.parse t.permission) t' arguments
    unfold instantiate
    simp only [← hpermission, hbody, hbody', unused, hleft, hright, hsame, and_self]

@[simp] theorem Function.id_unused {V : Vocabulary} (f : Function V) : f.unused.id = f.id := by
  cases f <;> rfl

@[simp] theorem Function.size_unused {V : Vocabulary} (f : Function V) : f.unused.size = f.size := by
  cases f <;> rfl

/-! ### Libraries -/

namespace Library

theorem find?_unused (l : Library) (id : String) :
    l.unused.find? id = (l.find? id).map Function.unused := by
  unfold find? unused
  rw [NameMap.get?_map, NameMap.get?_map]
  cases l.get? id with
  | some f => rfl
  | none =>
    simp only [Option.map_none]
    split
    · rfl
    · rfl

theorem longest_unused (l : Library) : l.unused.longest = l.longest := by
  unfold longest unused
  rw [List.foldl_map]
  simp only [Function.size_unused]

/-- Two libraries of compiled functions that differ in the bodies kept only. -/
structure Alike (l l' : Library) : Prop where
  same : l.unused = l'.unused
  compiled : l.Compiled
  compiled' : l'.Compiled

variable {l l' : Library}

theorem Alike.find? (h : l.Alike l') (id : String) :
    (l.find? id = none ∧ l'.find? id = none) ∨
      ∃ f f', l.find? id = some f ∧ l'.find? id = some f' ∧ f.unused = f'.unused := by
  have hfound : (l.find? id).map Function.unused = (l'.find? id).map Function.unused := by
    rw [← find?_unused, ← find?_unused, h.same]
  cases hl : l.find? id with
  | none =>
    rw [hl] at hfound
    exact .inl ⟨rfl, Option.map_eq_none_iff.mp hfound.symm⟩
  | some f =>
    rw [hl] at hfound
    obtain ⟨f', hf', hsame⟩ := Option.map_eq_some_iff.mp hfound.symm
    exact .inr ⟨f, f', rfl, hf', hsame.symm⟩

theorem Compiled.instantiate (h : l.Compiled) (id : String) (arguments : Option Record) :
    (l.instantiate id arguments).2.Compiled :=
  (instantiate_keeps (Q := fun _ => True) (fun _ hf arguments => ⟨fun _ _ => trivial, .used hf arguments⟩)
    h id arguments).2

/-- **The bodies that functions keep do not show**: a call gives bodies that read alike, or the same
error. -/
theorem Alike.instantiate (h : l.Alike l') (id : String) (arguments : Option Record) :
    (l.instantiate id arguments).1.map Body.content =
        (l'.instantiate id arguments).1.map Body.content ∧
      (l.instantiate id arguments).2.Alike (l'.instantiate id arguments).2 := by
  have hcompiled := h.compiled.instantiate id arguments
  have hcompiled' := h.compiled'.instantiate id arguments
  unfold Library.instantiate at hcompiled hcompiled' ⊢
  rcases h.find? id with ⟨hnone, hnone'⟩ | ⟨f, f', hf, hf', hsame⟩
  · rw [hnone, hnone']
    exact ⟨rfl, h⟩
  · obtain ⟨name, hmem⟩ := mem_of_find? hf
    obtain ⟨name', hmem'⟩ := mem_of_find? hf'
    obtain ⟨hbody, hleft⟩ := Function.instantiate_alike (h.compiled _ hmem) (h.compiled' _ hmem')
      hsame arguments
    simp only [hf, hf'] at hcompiled hcompiled' ⊢
    refine ⟨hbody, ?_, hcompiled, hcompiled'⟩
    have hid := congrArg Function.id hleft
    rw [Function.id_unused, Function.id_unused] at hid
    rw [unused, unused, NameMap.insert_map, NameMap.insert_map, hleft, hid]
    exact congrArg (NameMap.insert · _ _) h.same

end Library

end Trampoline
