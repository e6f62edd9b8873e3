import Trampoline.NameMap

/-! What is found in a map.

Putting an entry in changes what is found under its name, taking one out what was found there, and
nothing else does (`get?_insert`, `get?_erase`). -/
namespace Trampoline.NameMap

variable {β γ : Type}

/-! ### Entries -/

theorem mem_insert {m : NameMap β} {name : String} {x : β} {entry : String × β}
    (h : entry ∈ m.insert name x) : entry = (name, x) ∨ entry ∈ m := by
  induction m with
  | nil => exact .inl (List.mem_singleton.mp h)
  | cons first rest ih =>
    obtain ⟨k, v⟩ := first
    unfold insert at h
    split at h
    · exact List.mem_cons.mp h
    · split at h
      · rcases List.mem_cons.mp h with h | h
        · exact .inl h
        · exact .inr (List.mem_cons_of_mem _ h)
      · rcases List.mem_cons.mp h with h | h
        · exact .inr (h ▸ List.mem_cons_self)
        · exact (ih h).imp_right (List.mem_cons_of_mem _)

theorem mem_of_get? {m : NameMap β} {name : String} {x : β}
    (h : m.get? name = some x) : (name, x) ∈ m := by
  obtain ⟨before, after, hm, -⟩ := List.lookup_eq_some_iff.mp h
  rw [hm]
  exact List.mem_append_right _ List.mem_cons_self

theorem mem_foldl {entries : List (String × β)} {m : NameMap β} {entry : String × β}
    (h : entry ∈ entries.foldl (fun m (k, v) => insert m k v) m) : entry ∈ entries ∨ entry ∈ m := by
  induction entries generalizing m with
  | nil => exact .inr h
  | cons first entries ih =>
    rcases ih h with h | h
    · exact .inl (List.mem_cons_of_mem _ h)
    · rcases mem_insert h with h | h
      · exact .inl (h ▸ List.mem_cons_self)
      · exact .inr h

theorem Sorted.insert {m : NameMap β} (h : m.Sorted) (name : String) (b : β) :
    (m.insert name b).Sorted := by
  induction m with
  | nil => exact List.pairwise_singleton _ _
  | cons entry rest ih =>
    obtain ⟨hfirst, hrest⟩ := List.pairwise_cons.mp h
    unfold NameMap.insert
    split
    · next hlt =>
      refine List.pairwise_cons.mpr ⟨fun later hlater => ?_, h⟩
      rcases List.mem_cons.mp hlater with rfl | hlater
      · exact hlt
      · exact String.lt_trans hlt (hfirst later hlater)
    · next hge =>
      split
      · next heq =>
        rw [beq_iff_eq.mp heq]
        exact List.pairwise_cons.mpr ⟨hfirst, hrest⟩
      · next hne =>
        refine List.pairwise_cons.mpr ⟨fun later hlater => ?_, ih hrest⟩
        obtain ⟨other, hother, rfl⟩ := List.mem_map.mp hlater
        rcases mem_insert hother with rfl | hother
        · -- A name that neither comes before the first nor is it comes behind.
          refine Decidable.byContradiction fun hle => hne (beq_iff_eq.mpr ?_)
          exact String.le_antisymm (String.not_lt.mp hle) (String.not_lt.mp hge)
        · exact hfirst _ (List.mem_map_of_mem hother)

theorem Sorted.foldl {m : NameMap β} (h : m.Sorted) (entries : List (String × β)) :
    Sorted (entries.foldl (fun m (k, v) => NameMap.insert m k v) m) := by
  induction entries generalizing m with
  | nil => exact h
  | cons entry entries ih => exact ih (h.insert _ _)

theorem sorted_ofList (entries : List (String × β)) : Sorted (ofList entries) :=
  Sorted.foldl (m := []) List.Pairwise.nil entries

/-- No name has two entries. -/
theorem Sorted.nodup {m : NameMap β} (h : m.Sorted) : m.names.Nodup :=
  h.imp String.ne_of_lt

/-- A name after all others goes to the end. -/
theorem insert_last {m : NameMap β} {name : String} (b : β)
    (h : ∀ earlier ∈ m.names, earlier < name) : m.insert name b = m ++ [(name, b)] := by
  induction m with
  | nil => rfl
  | cons entry rest ih =>
    obtain ⟨hfirst, hrest⟩ := List.forall_mem_cons.mp h
    have hne : (name == entry.1) = false := beq_eq_false_iff_ne.mpr fun heq =>
      String.lt_irrefl _ (heq ▸ hfirst)
    unfold insert
    rw [if_neg (String.lt_asymm hfirst), hne, if_neg Bool.false_ne_true, ih hrest]
    rfl

/-! ### Finding -/

theorem get?_cons (name : String) (b : β) (m : NameMap β) (other : String) :
    get? ((name, b) :: m) other = if other == name then some b else get? m other := by
  rw [get?, List.lookup_cons]
  cases other == name <;> rfl

theorem get?_eq_find? (m : NameMap β) (name : String) :
    m.get? name = (m.find? fun entry => entry.1 == name).map Prod.snd := by
  induction m with
  | nil => rfl
  | cons entry rest ih =>
    rw [get?_cons, List.find?_cons, ih, Bool.beq_comm]
    cases entry.1 == name <;> rfl

theorem get?_insert (m : NameMap β) (name : String) (b : β) (other : String) :
    (m.insert name b).get? other = if other == name then some b else m.get? other := by
  induction m with
  | nil => exact get?_cons name b [] other
  | cons entry rest ih =>
    unfold insert
    split
    · exact get?_cons name b _ other
    · split
      · next heq =>
        rw [beq_iff_eq.mp heq, get?_cons, get?_cons]
        split <;> rfl
      · next hne =>
        rw [get?_cons, get?_cons, ih]
        by_cases hother : other = name
        · subst hother
          rw [if_neg hne]
          simp
        · simp [hother]

theorem get?_foldl (entries : List (String × β)) (m : NameMap β) (name : String) :
    get? (entries.foldl (fun m (k, v) => insert m k v) m) name =
      (entries.reverse.lookup name).or (get? m name) := by
  induction entries generalizing m with
  | nil => rfl
  | cons entry entries ih =>
    rw [List.foldl_cons, ih, get?_insert, List.reverse_cons, List.lookup_append, List.lookup_cons]
    cases entries.reverse.lookup name <;> cases name == entry.1 <;> rfl

/-- Of the entries of one name the last is found. -/
theorem get?_ofList (entries : List (String × β)) (name : String) :
    (ofList entries).get? name = entries.reverse.lookup name := by
  rw [ofList, get?_foldl]
  exact Option.or_none

theorem get?_erase (m : NameMap β) (name other : String) :
    (m.erase name).get? other = if other == name then none else m.get? other := by
  induction m with
  | nil => simp [erase, get?]
  | cons entry rest ih =>
    obtain ⟨k, v⟩ := entry
    rw [erase] at ih ⊢
    rw [List.filter_cons]
    by_cases hk : k = name
    · rw [if_neg (by simp [hk]), ih, get?_cons, hk]
      split <;> rfl
    · rw [if_pos (by simp [hk]), get?_cons, get?_cons, ih]
      by_cases hother : other = k
      · simp [hother, hk]
      · simp [hother]

theorem insert_map (g : β → γ) (m : NameMap β) (name : String) (b : β) :
    (m.insert name b).map (fun (k, v) => (k, g v)) =
      insert (m.map fun (k, v) => (k, g v)) name (g b) := by
  induction m with
  | nil => rfl
  | cons entry rest ih =>
    obtain ⟨k, v⟩ := entry
    simp only [insert, List.map_cons]
    split
    · rfl
    · split
      · rfl
      · rw [List.map_cons, ih]

theorem get?_map (g : β → γ) (m : NameMap β) (name : String) :
    get? (m.map fun (k, v) => (k, g v)) name = (m.get? name).map g := by
  induction m with
  | nil => rfl
  | cons entry rest ih =>
    obtain ⟨k, v⟩ := entry
    simp only [get?, List.map_cons, List.lookup_cons] at ih ⊢
    split
    · rfl
    · exact ih

end Trampoline.NameMap
