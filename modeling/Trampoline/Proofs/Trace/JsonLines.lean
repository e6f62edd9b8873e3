import Mathlib.Data.List.Forall2
import Trampoline.Proofs.NameMap
import Trampoline.Proofs.Settings
import Trampoline.Trace.Line

/-! A trace as JSON lines loses nothing.

`Record.ofJson?` gets a record back from an object, whatever the order of its fields. The object of
a record has no key twice, and the record comes back from it (`ofJson?_toJson`). A record's line
holds no line feed, so the lines of a trace can be told apart, and each of them says its own record
(`jsonLines_lossless`). -/
namespace Trampoline.Trace

/-! ### Getting records back -/

/-- A field that is a word of 64 bits. -/
def word? (key : String) (j : Json) : Option Nat := (j.field? key).bind Settings.natural?

def flag? (key : String) (j : Json) : Option Bool := (j.field? key).bind Json.bool?

def text? (key : String) (j : Json) : Option String := (j.field? key).bind Json.string?

/-- A whole number as wide as a command's result. -/
def int32? : Json → Option Int32
  | .number literal => Numeral.readInt32 literal
  | _ => none

def result? (key : String) (j : Json) : Option Int32 := (j.field? key).bind int32?

/-- The event of an object: the kind tells which fields it has. -/
def Event.ofJson? (j : Json) : Option Event := do
  match ← text? "type" j with
  | "run-start" => return .runStart
  | "run-end" => return .runEnd (← flag? "success" j) (← word? "cost" j)
  | "command" => return .command (← word? "depth" j) (← text? "command" j)
  | "return" => return .returned (← word? "depth" j) (← text? "command" j) (← result? "result" j)
  | "call" => return .call (← word? "depth" j) (← text? "function" j) (← word? "size" j)
  | "error" => return .error (← text? "message" j)
  | _ => none

def Record.ofJson? (j : Json) : Option Record := do
  return ⟨← word? "id" j, ← word? "run" j, ← word? "timestamp_ns" j, ← Event.ofJson? j⟩

/-! ### Records that fit -/

/-- The numbers of an event, a result apart. -/
def Event.numbers : Event → List Nat
  | .runStart => []
  | .runEnd _ cost => [cost]
  | .command depth _ => [depth]
  | .returned depth _ _ => [depth]
  | .call depth _ size => [depth, size]
  | .error _ => []

/-- Every number of a record is a word of 64 bits. -/
def Record.Fits (r : Record) : Prop :=
  ∀ n ∈ r.id :: r.run :: r.timestamp :: r.event.numbers, n < UInt64.size

/-! ### The object of a record -/

theorem int32?_int (n : Int32) : int32? (Json.int n.toInt) = some n := Numeral.readInt32_ofInt n

/-- Under a key stands what the event says, or else what every record says. -/
theorem field?_toJson (r : Record) (key : String) :
    r.toJson.field? key = (r.event.fields.reverse.lookup key).or (r.base.get? key) := by
  rw [Record.toJson, Json.field?_ofFields, ← NameMap.get?_eq_find?]
  exact NameMap.get?_foldl _ _ _

/-- A record's object gives the record back: no event hides what every record says. -/
theorem ofJson?_toJson {r : Record} (h : r.Fits) : Record.ofJson? r.toJson = some r := by
  obtain ⟨id, run, timestamp, event⟩ := r
  simp only [Record.Fits, List.mem_cons, forall_eq_or_imp] at h
  obtain ⟨hid, hrun, htimestamp, hevent⟩ := h
  cases event <;>
    simp only [Event.numbers, List.mem_cons, List.not_mem_nil, or_false, forall_eq_or_imp, forall_eq]
      at hevent <;>
    simp [Record.ofJson?, Event.ofJson?, Event.kind, word?, text?, flag?, result?, field?_toJson,
      Event.fields, Record.base, NameMap.get?_ofList, List.lookup_cons, List.lookup_nil,
      Json.string?_string, Json.bool?, Settings.natural?_nat, int32?_int, hid, hrun, htimestamp, hevent]

theorem sorted_fields (r : Record) : r.fields.Sorted :=
  (NameMap.sorted_ofList _).foldl r.event.fields

theorem printable_fields (event : Event) : ∀ field ∈ event.fields, field.2.Printable := by
  cases event <;>
    simp [Event.fields, Json.printable_nat, Json.printable_string, Json.printable_int,
      Json.Printable]

theorem printable_base (r : Record) : ∀ field ∈ r.base, field.2.Printable := by
  intro field hfield
  replace hfield := (NameMap.mem_foldl hfield).resolve_right List.not_mem_nil
  revert field
  simp [Json.printable_nat, Json.printable_string]

/-- Every value of a record is printable. -/
theorem printable_toJson (r : Record) : r.toJson.Printable :=
  Json.printable_ofFields fun field hfield =>
    (NameMap.mem_foldl hfield).elim (printable_fields r.event field) (printable_base r field)

/-! ### Lines -/

/-- What a line says: it is an object with no key twice that gives the record back. -/
def Says (line : List Char) (r : Record) : Prop :=
  ∃ fields : List (String × Json), Json.parse? line = some (.ofFields fields) ∧
    (fields.map Prod.fst).Nodup ∧ Record.ofJson? (.ofFields fields) = some r

theorem says_jsonLine {r : Record} (h : r.Fits) : Says r.jsonLine.toList r := by
  have hread : Json.parse? r.jsonLine.toList = some r.toJson := by
    rw [Record.jsonLine, String.toList_ofList, Json.parse?_write (printable_toJson r)]
  exact ⟨r.fields, hread, (sorted_fields r).nodup, ofJson?_toJson h⟩

theorem Says.unique {line : List Char} {r r' : Record} (h : Says line r) (h' : Says line r') :
    r = r' := by
  obtain ⟨fields, hread, -, hback⟩ := h
  obtain ⟨fields', hread', -, hback'⟩ := h'
  obtain heq := Option.some.inj (hread.symm.trans hread')
  rw [heq, hback'] at hback
  exact (Option.some.inj hback).symm

theorem not_says_nil (r : Record) : ¬Says [] r := by
  rintro ⟨fields, hread, -, -⟩
  cases hread

/-- A record's line holds no line feed, so the lines come apart where they were joined. -/
theorem splitOn_jsonLines {rs : List Record} (hne : rs ≠ []) :
    (jsonLines rs).toList.splitOn '\n' = rs.map fun r => r.jsonLine.toList := by
  rw [jsonLines, String.toList_intercalate, List.map_map]
  refine List.splitOn_intercalate '\n' ?_ (by simpa using hne)
  intro line hline
  obtain ⟨r, -, rfl⟩ := List.mem_map.mp hline
  simpa [Record.jsonLine] using Json.not_mem_write _ (printable_toJson r)

theorem says_jsonLines {rs : List Record} (h : ∀ r ∈ rs, r.Fits) (hne : rs ≠ []) :
    List.Forall₂ Says ((jsonLines rs).toList.splitOn '\n') rs := by
  rw [splitOn_jsonLines hne, List.forall₂_map_left_iff, List.forall₂_same]
  exact fun r hr => says_jsonLine (h r hr)

/-- Two traces with the same text are the same trace, also when one of them is empty. -/
theorem jsonLines_inj {rs rs' : List Record} (h : ∀ r ∈ rs, r.Fits) (h' : ∀ r ∈ rs', r.Fits)
    (heq : jsonLines rs = jsonLines rs') : rs = rs' := by
  have hempty {rs : List Record} (h : ∀ r ∈ rs, r.Fits) (heq : jsonLines rs = jsonLines []) :
      rs = [] := by
    by_contra hne
    have hsays := says_jsonLines h hne
    rw [heq] at hsays
    cases hsays with
    | cons hline _ => exact not_says_nil _ hline
  by_cases hne : rs = []
  · subst hne
    exact (hempty h' heq.symm).symm
  · by_cases hne' : rs' = []
    · subst hne'
      exact hempty h heq
    · have hsays := says_jsonLines h hne
      rw [heq] at hsays
      have hunique : Relator.RightUnique Says := fun _ _ _ h h' => h.unique h'
      exact hunique.forall₂ hsays (says_jsonLines h' hne')

/-- **A trace as JSON lines loses nothing**: there is one line for each record, it is an object that
gives exactly this record back, and no other trace has the same text. -/
theorem jsonLines_lossless (rs : List Record) (h : ∀ r ∈ rs, r.Fits) :
    (rs ≠ [] → ((jsonLines rs).toList.splitOn '\n').length = rs.length ∧
      List.Forall₂ Says ((jsonLines rs).toList.splitOn '\n') rs) ∧
    ∀ rs' : List Record, (∀ r ∈ rs', r.Fits) → jsonLines rs = jsonLines rs' → rs = rs' :=
  ⟨fun hne => ⟨(says_jsonLines h hne).length_eq, says_jsonLines h hne⟩,
    fun _ h' heq => jsonLines_inj h h' heq⟩

/-- A trace with the largest number and a text of quotes, backslashes and line ends. -/
def awkward : List Record :=
  [⟨0, 1, 0, .runStart⟩, ⟨1, 1, UInt64.size - 1, .command 0 "say \"a\\\n\r\t\x01\"é"⟩,
    ⟨2, 1, 7, .returned 0 "\n" (-2147483648)⟩, ⟨3, 1, 8, .runEnd true 1⟩]

theorem jsonLines_lossless_awkward :
    ((jsonLines awkward).toList.splitOn '\n').length = 4 ∧
      List.Forall₂ Says ((jsonLines awkward).toList.splitOn '\n') awkward ∧
      jsonLines awkward ≠ jsonLines awkward.reverse := by
  have hfits : ∀ r ∈ awkward, r.Fits := by
    simp [awkward, Record.Fits, Event.numbers, UInt64.size]
  have hreverse : ∀ r ∈ awkward.reverse, r.Fits := fun r hr => hfits r (List.mem_reverse.mp hr)
  obtain ⟨hlines, hinj⟩ := jsonLines_lossless awkward hfits
  exact ⟨(hlines (by decide)).1, (hlines (by decide)).2, fun heq =>
    absurd (hinj _ hreverse heq) (by decide)⟩

end Trampoline.Trace
