import Trampoline.Proofs.Compound.Failure
import Trampoline.Proofs.NameMap

/-! Compounds at a cursor.

A cursor passes over exactly the texts that are compounds (`compound_exact`). -/
namespace Trampoline

namespace Cursor
open Compound (IsCompound Reaches Awaited Stuck)

variable {c next : Cursor} {rest text : List Char}

theorem moveTo_append (c : Cursor) (h : c.rest = text ++ rest) : c.moveTo rest = c.skip text.length := by
  rw [moveTo, skip, h, Text.width_append, List.take_left, List.drop_left, Nat.add_sub_cancel]

/-- A compound ends where its derivation does. -/
theorem compound_ok_iff_derivable {r : Record} :
    c.compound = .ok (r, next) ↔ ∃ text fields, text <+: c.rest ∧ IsCompound text fields [] ∧
      r = NameMap.ofList fields ∧ next = c.skip text.length := by
  constructor
  · intro h
    unfold compound at h
    split at h
    · next hread =>
      cases h
      obtain ⟨text, fields, heq, hderives, rfl⟩ := Compound.read_ok_iff.mp hread
      exact ⟨text, fields, ⟨_, heq.symm⟩, hderives.any_rest [], rfl, moveTo_append c heq⟩
    · cases h
  · rintro ⟨text, fields, ⟨rest, heq⟩, hderives, rfl, rfl⟩
    rw [compound, Compound.read_ok_iff.mpr ⟨text, fields, heq.symm, hderives.any_rest rest, rfl⟩]
    exact congrArg (fun next => Except.ok (_, next)) (moveTo_append c heq.symm)

/-- Two compounds at one place are the same text. -/
theorem eq_of_compounds {text' : List Char} {fields fields' : List (String × Value)}
    (hbegin : text <+: c.rest) (hbegin' : text' <+: c.rest) (h : IsCompound text fields [])
    (h' : IsCompound text' fields' []) : text = text' := by
  obtain ⟨rest, heq⟩ := hbegin
  obtain ⟨rest', heq'⟩ := hbegin'
  have hread := Compound.read_ok_iff.mpr ⟨text, fields, heq.symm, h.any_rest rest, rfl⟩
  have hread' := Compound.read_ok_iff.mpr ⟨text', fields', heq'.symm, h'.any_rest rest', rfl⟩
  rw [hread, Except.ok.injEq, Prod.mk.injEq] at hread'
  rw [hread'.2] at heq
  exact List.append_cancel_right (heq.trans heq'.symm)

/-- A later part of the rest stands between the cursor and the end of the text. -/
theorem moveTo_position_le (hc : c.Valid) (h : rest <:+ c.rest) :
    c.position ≤ (c.moveTo rest).position ∧ (c.moveTo rest).position ≤ c.source.utf8ByteSize := by
  obtain ⟨before, hsource, hposition⟩ := hc
  obtain ⟨skipped, heq⟩ := h
  rw [← Text.width_toList, hsource, moveTo, hposition, ← heq]
  simp only [Text.width_append]
  omega

theorem compound_error_iff {e : CommandError} :
    c.compound = .error e ↔ ∃ p rest f, Reaches c.rest p rest ∧ Stuck p rest f ∧
      e = (CommandError.invalid f.cause.message).atPlace c.source (c.moveTo f.rest).position := by
  constructor
  · intro h
    unfold compound at h
    split at h
    · cases h
    · next f hread =>
      cases h
      obtain ⟨p, rest, hreach, hstuck⟩ := Compound.read_error_iff.mp hread
      exact ⟨p, rest, f, hreach, hstuck, rfl⟩
  · rintro ⟨p, rest, f, hreach, hstuck, rfl⟩
    rw [compound, Compound.read_error_iff.mpr ⟨p, rest, hreach, hstuck⟩]

/-- **The reader of compounds accepts its grammar and nothing else.** It succeeds at `next` exactly
when the text up to there is a compound, and there is at most one such text; of the fields of one
name the last counts. It fails exactly where it is stuck, which is what happens at a tab, behind a
comma that nothing follows, and where a colon or a comma is missing; and what it reports lies
between the cursor and the end of the text. -/
theorem compound_exact (c : Cursor) (hc : c.Valid) :
    (∀ r next, c.compound = .ok (r, next) ↔ ∃ text fields, text <+: c.rest ∧
      IsCompound text fields [] ∧ r = NameMap.ofList fields ∧ next = c.skip text.length) ∧
    (∀ text text' fields fields', text <+: c.rest → text' <+: c.rest →
      IsCompound text fields [] → IsCompound text' fields' [] → text = text') ∧
    (∀ (fields : List (String × Value)) name,
      (NameMap.ofList fields).get? name = fields.reverse.lookup name) ∧
    (∀ e, c.compound = .error e ↔ ∃ p rest f, Reaches c.rest p rest ∧ Stuck p rest f ∧
      e = (CommandError.invalid f.cause.message).atPlace c.source (c.moveTo f.rest).position) ∧
    ((∀ p : Awaited, p.admits '\t' = false) ∧ (Awaited.key false).admits '\x7d' = false ∧
      (Awaited.item false).admits ']' = false) ∧
    ∀ e, c.compound = .error e → ∃ position, e.place = some ⟨c.source, position⟩ ∧
      c.position ≤ position ∧ position ≤ c.source.utf8ByteSize := by
  refine ⟨fun r next => compound_ok_iff_derivable, fun _ _ _ _ => eq_of_compounds,
    NameMap.get?_ofList, fun e => compound_error_iff, ⟨Compound.admits_tab, Compound.admits_close⟩,
    fun e he => ?_⟩
  unfold compound at he
  split at he
  · cases he
  · next f hread =>
    cases he
    exact ⟨_, rfl, moveTo_position_le hc (Compound.read_error_suffix hread)⟩

/-- After a comma a compound goes on with a key. -/
theorem reaches_comma : Reaches (ofText "\x7ba:1,\x7d").rest (.key false) ['\x7d'] := by
  have hrest : (ofText "\x7ba:1,\x7d").rest = ['\x7b', 'a', ':', '1', ',', '\x7d'] := rfl
  have hkey : Compound.IsKey ['a'] "a" [':', '1', ',', '\x7d'] :=
    .bare (List.cons_ne_nil _ _) (List.all_eq_true.mp rfl) (Compound.stops_cons _ rfl)
  have hvalue : Compound.IsScalar ['1'] (Compound.classify ['1']) [',', '\x7d'] :=
    .bare (List.cons_ne_nil _ _) (List.all_eq_true.mp rfl) (Compound.stops_cons _ rfl)
  rw [hrest]
  exact .head (.opened Compound.spaces_nil) <| .head (.key Compound.spaces_nil hkey) <|
    .head (.colon Compound.spaces_nil) <| .head (.value Compound.spaces_nil (.scalar hvalue)) <|
    .head (.field Compound.spaces_nil) .refl

theorem compound_exact_say :
    ((ofText "say \x7b \x7d!").skip 3).compound = .ok ([], ⟨"say \x7b \x7d!", 7, ['!']⟩) ∧
      (ofText "\x7ba:1,\x7d").compound =
        .error ((CommandError.invalid "Expected key").atPlace "\x7ba:1,\x7d" 5) := by
  have hspace : Compound.Spaces [' '] := fun c hc => List.mem_singleton.mp hc
  refine ⟨((compound_exact _ (valid_skip (valid_ofText _) 3)).1 _ _).mpr
    ⟨[' ', '\x7b', ' ', '\x7d'], [], ⟨['!'], rfl⟩, .empty hspace hspace, rfl, rfl⟩, ?_⟩
  exact ((compound_exact _ (valid_ofText _)).2.2.2.1 _).mpr ⟨.key false, ['\x7d'], _, reaches_comma,
    .unexpected fun ch hch => by cases hch; rfl, rfl⟩

end Cursor

end Trampoline
