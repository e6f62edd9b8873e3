import Mathlib.Data.List.Induction
import Trampoline.Host
import Trampoline.Proofs.Command.Stages
import Trampoline.Proofs.NameMap

/-! Removing what is found.

An id is looked up as it is and then normalized; it is removed normalized. So a removal takes away
what is found under the normalized id, and nothing else (`find?_remove`). It takes away what is
found under the id itself unless a function stands under an id without a namespace. None is loaded
under such an id: it was put there, and no removal reaches it (`get?_after_iff`). -/
namespace Trampoline

open Command (standard normalizeId defaultNamespace)

/-- An id that names its namespace. -/
def HasNamespace (id : String) : Prop := ':' ∈ id.toList

instance (id : String) : Decidable (HasNamespace id) := inferInstanceAs (Decidable (_ ∈ _))

theorem normalizeId_of_hasNamespace {id : String} (h : HasNamespace id) : normalizeId id = id := by
  rw [normalizeId, if_pos (List.contains_iff_mem.mpr h)]

theorem hasNamespace_normalizeId (id : String) : HasNamespace (normalizeId id) := by
  rw [normalizeId]
  split
  · next h => exact List.contains_iff_mem.mp h
  · simp [HasNamespace]

/-- A function has the id it was compiled under. -/
theorem Function.id_compile {V : Vocabulary} {parse : Nat → String → Except CommandError (Chain V)}
    {id : String} {permission : Nat} {lines : List String} {f : Function V}
    (h : compile parse id permission lines = .ok f) : f.id = id := by
  obtain ⟨items, -, h⟩ := Command.ok_of_bind h
  cases h
  rw [Compile.assemble]
  split <;> rfl

namespace Library

variable {l : Library} {id other : String}

/-! ### One removal -/

theorem find?_of_hasNamespace (h : HasNamespace id) : l.find? id = l.get? id := by
  rw [find?]
  split
  · next hget => exact hget.symm
  · next hget => rw [if_pos (List.contains_iff_mem.mpr h), hget]

/-- An id without a namespace is tried as it is. -/
theorem find?_of_not_hasNamespace (h : ¬ HasNamespace id) :
    l.find? id = (l.get? id).or (l.get? (normalizeId id)) := by
  rw [find?]
  split
  · next hget => rw [hget]; rfl
  · next hget =>
    rw [if_neg fun hcontains => h (List.contains_iff_mem.mp hcontains), hget]
    rfl

theorem find?_normalizeId (l : Library) (id : String) :
    l.find? (normalizeId id) = l.get? (normalizeId id) :=
  find?_of_hasNamespace (hasNamespace_normalizeId id)

/-- No removal reaches what stands under an id without a namespace. -/
theorem get?_remove (h : ¬ HasNamespace other) : NameMap.get? (l.remove id).2 other = l.get? other := by
  rw [remove, NameMap.get?_erase, if_neg]
  intro heq
  rw [beq_iff_eq.mp heq] at h
  exact h (hasNamespace_normalizeId id)

/-- Only what is found under the normalized id goes. -/
theorem find?_remove (l : Library) (id other : String) (h : normalizeId other ≠ normalizeId id) :
    (l.remove id).2.find? other = l.find? other := by
  have hnormal : NameMap.get? (l.remove id).2 (normalizeId other) = l.get? (normalizeId other) := by
    rw [remove, NameMap.get?_erase, if_neg (by simpa using h)]
  by_cases hother : HasNamespace other
  · rw [normalizeId_of_hasNamespace hother] at hnormal
    rw [find?_of_hasNamespace hother, find?_of_hasNamespace hother, hnormal]
  · rw [find?_of_not_hasNamespace hother, find?_of_not_hasNamespace hother, get?_remove hother, hnormal]

theorem find?_remove_normalizeId (l : Library) (id : String) :
    (l.remove id).2.find? (normalizeId id) = none := by
  rw [find?_normalizeId, remove, NameMap.get?_erase, if_pos (beq_self_eq_true _)]

/-- A removal takes away what is found under an id exactly if the id names its namespace or nothing
stands under it as it is. -/
theorem remove_eq_find?_iff (l : Library) (id : String) :
    (l.remove id).1 = l.find? id ∧ (l.remove id).2.find? id = none ↔
      HasNamespace id ∨ l.get? id = none := by
  have hgone := find?_remove_normalizeId l id
  by_cases h : HasNamespace id
  · have hid := normalizeId_of_hasNamespace h
    rw [hid] at hgone
    have hfound : (l.remove id).1 = l.find? id := by rw [find?_of_hasNamespace h, remove, hid]
    exact iff_of_true ⟨hfound, hgone⟩ (.inl h)
  · rw [find?_normalizeId] at hgone
    rw [find?_of_not_hasNamespace h, find?_of_not_hasNamespace h, get?_remove h, hgone]
    cases l.get? id with
    | none => exact iff_of_true ⟨rfl, rfl⟩ (.inr rfl)
    | some f => simp [h]

/-! ### Edits -/

/-- What is done to a library. -/
inductive Edit where
  | put (f : Function standard)
  | load (id : String) (lines : List String)
  | remove (id : String)
  | clear

def edit (l : Library) : Edit → Library
  | .put f => (l.put f).2
  | .load id lines =>
    match l.loadLines id lines with
    | .ok (_, loaded) => loaded
    | .error _ => l
  | .remove id => (l.remove id).2
  | .clear => []

def afterEdits (edits : List Edit) : Library := edits.foldl edit []

/-- The ids that functions were put under since the library was last cleared. -/
def putIds (edits : List Edit) : List String :=
  edits.foldl (fun ids edit =>
    match edit with
    | .put f => f.id :: ids
    | .clear => []
    | _ => ids) []

/-- One edit. Loading and removing name a namespace, and leave the other ids alone. -/
theorem get?_edit (h : ¬ HasNamespace id) (l : Library) (e : Edit) :
    NameMap.get? (l.edit e) id =
      match e with
      | .put f => if id = f.id then some f else l.get? id
      | .clear => none
      | _ => l.get? id := by
  cases e with
  | put f => simp [edit, put, NameMap.get?_insert]
  | load loaded lines =>
    rw [edit]
    cases hload : l.loadLines loaded lines with
    | error fault => rfl
    | ok result =>
      obtain ⟨f, hcompile, hresult⟩ := Command.ok_of_bind hload
      cases hresult
      have hne : id ≠ f.id := by
        rintro rfl
        rw [Function.id_compile hcompile] at h
        exact h (hasNamespace_normalizeId loaded)
      simp [put, NameMap.get?_insert, hne]
  | remove removed => exact get?_remove h
  | clear => rfl

/-- What stands under an id without a namespace was put there. -/
theorem get?_afterEdits_iff (h : ¬ HasNamespace id) (edits : List Edit) :
    NameMap.get? (afterEdits edits) id = none ↔ id ∉ putIds edits := by
  induction edits using List.reverseRecOn with
  | nil => exact iff_of_true rfl List.not_mem_nil
  | append_singleton edits e ih =>
    rw [afterEdits, List.foldl_append, ← afterEdits, List.foldl_cons, List.foldl_nil, get?_edit h,
      putIds, List.foldl_append, ← putIds, List.foldl_cons, List.foldl_nil]
    cases e with
    | put f =>
      by_cases heq : id = f.id
      · simp [heq]
      · simpa [heq] using ih
    | load loaded lines => exact ih
    | remove removed => exact ih
    | clear => simp

/-- **Lookup and removal.** After every sequence of edits a removal takes away what is found under
the normalized id, and leaves what is found under every other id. It gives back what was found under
the id itself, and leaves nothing to be found there, exactly if the id names its namespace or no
function was put under it, without one, since the library was last cleared. -/
theorem remove_afterEdits (edits : List Edit) (id : String) :
    let l := afterEdits edits
    (l.remove id).1 = l.find? (normalizeId id) ∧
      (l.remove id).2.find? (normalizeId id) = none ∧
      (∀ other, normalizeId other ≠ normalizeId id → (l.remove id).2.find? other = l.find? other) ∧
      ((l.remove id).1 = l.find? id ∧ (l.remove id).2.find? id = none ↔
        HasNamespace id ∨ id ∉ putIds edits) := by
  intro l
  refine ⟨?_, find?_remove_normalizeId l id, fun other h => find?_remove l id other h, ?_⟩
  · rw [find?_normalizeId, remove]
  · rw [remove_eq_find?_iff]
    by_cases h : HasNamespace id
    · exact iff_of_true (.inl h) (.inl h)
    · rw [get?_afterEdits_iff h]

/-- A function put under an id without a namespace is found, but not removed. -/
example : ((afterEdits [.put (.plain ⟨"bare", [], 0⟩)]).find? "bare").isSome ∧
    ((afterEdits [.put (.plain ⟨"bare", [], 0⟩)]).remove "bare").1.isNone := by decide

end Library

end Trampoline
