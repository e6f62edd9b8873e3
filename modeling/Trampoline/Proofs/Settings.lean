import Mathlib.Data.List.Nodup
import Mathlib.Data.List.Pairwise
import Trampoline.Proofs.Json.Writing
import Trampoline.Settings

/-! Settings and their text.

A settings text may give any of the fields of its two sections and the path of the functions, in any
order and with any blanks and escapes. `Part` is what such a text gives, `Part.IsWritten` says that
an object gives just that. Setting two fields comes to the same in either order
(`independent_fields` and the lemmas before it), so an object with the fields of a part sets them
one after another whatever their order is (`readSection_of_hasFields`), and all other fields keep
their defaults. The text that is written of settings gives every field, so reading it brings the
settings back; both are `ofText_exact`. -/
namespace Trampoline.Settings

/-! ### Parts of settings -/

/-- The field of a value, if there is one. -/
def given {α : Type} (key : String) (write : α → Json) (value : Option α) : List (String × Json) :=
  (value.map fun a => (key, write a)).toList

/-- Limits of which only some may be given. -/
structure LimitsPart where
  commands : Option Nat := none
  forks : Option Nat := none
  queue : Option Nat := none

structure ObservationPart where
  enabled : Option Bool := none
  bufferSize : Option Nat := none
  echo : Option Bool := none
  json : Option Bool := none
  profiling : Option Bool := none

/-- Settings of which only some may be given; a path can be given as none. -/
structure Part where
  limits : Option LimitsPart := none
  observation : Option ObservationPart := none
  functions : Option (Option String) := none

namespace LimitsPart

def entries (p : LimitsPart) : List (String × Json) :=
  given "command_limit" .nat p.commands ++ given "fork_limit" .nat p.forks ++
    given "queue_limit" .nat p.queue

/-- The limits with those given in place of theirs. -/
def onto (p : LimitsPart) (l : Limits) : Limits where
  commands := p.commands.getD l.commands
  forks := p.forks.getD l.forks
  queue := p.queue.getD l.queue

def numbers (p : LimitsPart) : List Nat := p.commands.toList ++ p.forks.toList ++ p.queue.toList

end LimitsPart

namespace ObservationPart

def entries (p : ObservationPart) : List (String × Json) :=
  given "enabled" .bool p.enabled ++ given "buffer_size" .nat p.bufferSize ++
    given "trace_to_stderr" .bool p.echo ++ given "json_output" .bool p.json ++
    given "profiling" .bool p.profiling

def onto (p : ObservationPart) (o : Observation) : Observation where
  enabled := p.enabled.getD o.enabled
  bufferSize := p.bufferSize.getD o.bufferSize
  echo := p.echo.getD o.echo
  json := p.json.getD o.json
  profiling := p.profiling.getD o.profiling

end ObservationPart

/-- An object that has the given fields, in any order. -/
def HasFields (entries : List (String × Json)) (j : Json) : Prop :=
  ∃ order : List (String × Json), order.Perm entries ∧ j = .ofFields order

namespace Part

def pathJson : Option String → Json
  | none => .null
  | some path => .string path

/-- An object that gives a part and nothing else. -/
def IsWritten (p : Part) (j : Json) : Prop :=
  ∃ execution observability : Json,
    (∀ l ∈ p.limits, HasFields l.entries execution) ∧
    (∀ o ∈ p.observation, HasFields o.entries observability) ∧
    HasFields (given "execution" (fun _ => execution) p.limits ++
      given "observability" (fun _ => observability) p.observation ++
      given "functions" pathJson p.functions) j

/-- The settings with the part in place of theirs. -/
def onto (p : Part) (s : Settings) : Settings where
  limits := (p.limits.map (·.onto s.limits)).getD s.limits
  observation := (p.observation.map (·.onto s.observation)).getD s.observation
  functions := p.functions.getD s.functions

/-- Every number is a word of 64 bits. -/
structure Fits (p : Part) : Prop where
  limits : ∀ l ∈ p.limits, ∀ n ∈ l.numbers, n < UInt64.size
  observation : ∀ o ∈ p.observation, ∀ n ∈ o.bufferSize, n < UInt64.size

end Part

/-! ### Fields that do not depend on each other -/

section
variable {σ : Type}

/-- Setting two fields comes to the same in either order. -/
def Commutes (f g : Field σ) : Prop :=
  ∀ j k s, (f.set j s).bind (g.set k) = (g.set k s).bind (f.set j)

instance : Std.Symm (@Commutes σ) where
  symm _ _ h := fun j k s => (h k j s).symm

def Independent (fields : List (Field σ)) : Prop := fields.Pairwise Commutes

/-- Fields that are read on their own and set different things. -/
theorem Commutes.of_reads {α β : Type} {f g : Field σ} {read : Json → Option α}
    {read' : Json → Option β} {update : α → σ → σ} {update' : β → σ → σ}
    (hf : ∀ j s, f.set j s = (read j).map fun a => update a s)
    (hg : ∀ j s, g.set j s = (read' j).map fun b => update' b s)
    (h : ∀ a b s, update' b (update a s) = update a (update' b s)) : Commutes f g := by
  intro j k s
  rw [hf, hg]
  cases hj : read j <;> cases hk : read' k <;> simp [hf, hg, hj, hk, h]

/-- An entry with a known key and a value that can be read, whatever was read before. -/
def Reads (fields : List (Field σ)) (entry : String × Json) : Prop :=
  ∃ f, fields.find? (fun f => f.key == entry.1) = some f ∧ ∀ s, (f.set entry.2 s).isSome

/-- What such an entry sets. -/
def put (fields : List (Field σ)) (s : σ) (entry : String × Json) : σ :=
  ((fields.find? fun f => f.key == entry.1).bind fun f => f.set entry.2 s).getD s

variable {fields : List (Field σ)} {entries : List (String × Json)}

theorem put_eq {entry : String × Json} {f : Field σ} {s s' : σ}
    (hfind : fields.find? (fun f => f.key == entry.1) = some f) (hset : f.set entry.2 s = some s') :
    put fields s entry = s' := by
  rw [put, hfind, Option.bind_some, hset, Option.getD_some]

theorem setByKey_ofFields (closed : Bool) (hreads : ∀ e ∈ entries, Reads fields e)
    (hnodup : (entries.map Prod.fst).Nodup) (seen : List String) (hseen : ∀ e ∈ entries, e.1 ∉ seen)
    (s : σ) : setByKey fields closed seen s (entries.map fun (key, value) => (Json.points key, value)) =
      some (entries.foldl (put fields) s) := by
  induction entries generalizing seen s with
  | nil => rfl
  | cons e entries ih =>
    obtain ⟨f, hfind, hset⟩ := hreads e List.mem_cons_self
    obtain ⟨s', hs'⟩ := Option.isSome_iff_exists.mp (hset s)
    rw [List.map_cons, List.nodup_cons] at hnodup
    have hfresh : seen.contains e.1 = false := by
      simpa using hseen e List.mem_cons_self
    have hrest := ih (fun e' he' => hreads e' (List.mem_cons_of_mem e he')) hnodup.2 (e.1 :: seen)
      (fun e' he' => by
        rw [List.mem_cons, not_or]
        exact ⟨fun heq => hnodup.1 (heq ▸ List.mem_map_of_mem he'),
          hseen e' (List.mem_cons_of_mem e he')⟩) s'
    rw [List.map_cons, setByKey, Json.ofPoints?_points]
    simp only [hfind, hfresh, hs', hrest, List.foldl_cons, put_eq hfind hs', Bool.false_eq_true,
      if_false]

theorem put_comm (hindependent : Independent fields) {x y : String × Json} (hx : Reads fields x)
    (hy : Reads fields y) (hne : x.1 ≠ y.1) (s : σ) :
    put fields (put fields s x) y = put fields (put fields s y) x := by
  obtain ⟨f, hf, hsetf⟩ := hx
  obtain ⟨g, hg, hsetg⟩ := hy
  obtain ⟨s₁, hs₁⟩ := Option.isSome_iff_exists.mp (hsetf s)
  obtain ⟨s₂, hs₂⟩ := Option.isSome_iff_exists.mp (hsetg s)
  obtain ⟨s₁₂, hs₁₂⟩ := Option.isSome_iff_exists.mp (hsetg s₁)
  obtain ⟨s₂₁, hs₂₁⟩ := Option.isSome_iff_exists.mp (hsetf s₂)
  have hfg : f ≠ g := by
    rintro rfl
    have hkeyf := List.find?_some hf
    have hkeyg := List.find?_some hg
    exact hne ((eq_of_beq hkeyf).symm.trans (eq_of_beq hkeyg))
  have hbind := hindependent.forall (List.mem_of_find?_eq_some hf) (List.mem_of_find?_eq_some hg) hfg
    x.2 y.2 s
  rw [hs₁, hs₂, Option.bind_some, Option.bind_some, hs₁₂, hs₂₁] at hbind
  rw [put_eq hf hs₁, put_eq hg hs₁₂, put_eq hg hs₂, put_eq hf hs₂₁, Option.some.inj hbind]

/-- A section is read field by field, whatever their order is. -/
theorem readSection_of_hasFields (hindependent : Independent fields) (closed : Bool) (s : σ) {j : Json}
    (hreads : ∀ e ∈ entries, Reads fields e) (hnodup : (entries.map Prod.fst).Nodup)
    (h : HasFields entries j) :
    readSection fields closed s j = some (entries.foldl (put fields) s) := by
  obtain ⟨order, hperm, rfl⟩ := h
  have hread := setByKey_ofFields closed (fun e he => hreads e (hperm.mem_iff.mp he))
    ((hperm.map Prod.fst).nodup_iff.mpr hnodup) [] (fun _ _ => List.not_mem_nil) s
  rw [Json.ofFields, readSection, hread, Option.some_inj]
  have hkeys := List.inj_on_of_nodup_map hnodup
  refine hperm.foldl_eq' (fun x hx y hy z => ?_) s
  by_cases heq : x = y
  · rw [heq]
  · have hx := hperm.mem_iff.mp hx
    have hy := hperm.mem_iff.mp hy
    exact put_comm hindependent (hreads x hx) (hreads y hy) (fun hkey => heq (hkeys hx hy hkey)) z

/-! What `given` lists. -/

variable {α : Type} {key : String} {write : α → Json} {update : α → σ → σ} {value : Option α}

theorem mem_given {entry : String × Json} :
    entry ∈ given key write value ↔ ∃ a ∈ value, (key, write a) = entry := by
  rw [given, Option.mem_toList, Option.map_eq_some_iff]
  rfl

theorem keys_given : ((given key write value).map Prod.fst).Sublist [key] := by
  cases value with
  | none => exact List.nil_sublist _
  | some a => exact List.Sublist.refl _

/-- The field with a key sets what the value says. -/
def Sets (fields : List (Field σ)) (key : String) (write : α → Json) (update : α → σ → σ)
    (value : Option α) : Prop :=
  ∃ f, fields.find? (fun f => f.key == key) = some f ∧
    ∀ a ∈ value, ∀ s, f.set (write a) s = some (update a s)

theorem Sets.reads (h : Sets fields key write update value) :
    ∀ e ∈ given key write value, Reads fields e := by
  obtain ⟨f, hfind, hset⟩ := h
  intro e he
  obtain ⟨a, ha, rfl⟩ := mem_given.mp he
  exact ⟨f, hfind, fun s => by rw [hset a ha]; rfl⟩

theorem Sets.foldl (h : Sets fields key write update value) (s : σ) :
    (given key write value).foldl (put fields) s = (value.map fun a => update a s).getD s := by
  obtain ⟨f, hfind, hset⟩ := h
  cases value with
  | none => rfl
  | some a => exact put_eq hfind (hset a rfl s)

end

/-! ### The limits -/

variable {j : Json}

theorem natural?_nat {n : Nat} (h : n < UInt64.size) : natural? (.nat n) = some n :=
  Numeral.readNat_ofNat (Nat.le_sub_one_of_lt h)

theorem independent_limitsFields : Independent limitsFields := by
  simp only [Independent, limitsFields, List.pairwise_cons, List.mem_cons, List.not_mem_nil, or_false,
    forall_eq_or_imp, forall_eq]
  refine ⟨⟨?_, ?_⟩, ?_, nofun, .nil⟩ <;>
    exact .of_reads (fun _ _ => rfl) (fun _ _ => rfl) fun _ _ _ => rfl

theorem LimitsPart.read {p : LimitsPart} (hfits : ∀ n ∈ p.numbers, n < UInt64.size)
    (h : HasFields p.entries j) (l : Limits) : readSection limitsFields false l j = some (p.onto l) := by
  have hcommands : Sets limitsFields "command_limit" .nat (fun n l => { l with commands := n })
      p.commands := ⟨_, rfl, fun n hn l => by
    simp [natural?_nat (hfits n (by simp_all [numbers]))]⟩
  have hforks : Sets limitsFields "fork_limit" .nat (fun n l => { l with forks := n }) p.forks :=
    ⟨_, rfl, fun n hn l => by simp [natural?_nat (hfits n (by simp_all [numbers]))]⟩
  have hqueue : Sets limitsFields "queue_limit" .nat (fun n l => { l with queue := n }) p.queue :=
    ⟨_, rfl, fun n hn l => by simp [natural?_nat (hfits n (by simp_all [numbers]))]⟩
  have hkeys : (p.entries.map Prod.fst).Nodup := by
    have hsub : (p.entries.map Prod.fst).Sublist ["command_limit", "fork_limit", "queue_limit"] := by
      simp only [entries, List.map_append]
      exact (keys_given.append keys_given).append keys_given
    exact hsub.nodup (by decide)
  have hreads : ∀ e ∈ p.entries, Reads limitsFields e := by
    simp only [entries, List.forall_mem_append]
    exact ⟨⟨hcommands.reads, hforks.reads⟩, hqueue.reads⟩
  rw [readSection_of_hasFields independent_limitsFields false l hreads hkeys h, entries,
    List.foldl_append, List.foldl_append, hcommands.foldl, hforks.foldl, hqueue.foldl]
  rcases p with ⟨_ | _, _ | _, _ | _⟩ <;> rfl

/-! ### The observation -/

theorem independent_observationFields : Independent observationFields := by
  simp only [Independent, observationFields, List.pairwise_cons, List.mem_cons, List.not_mem_nil,
    or_false, forall_eq_or_imp, forall_eq]
  refine ⟨⟨?_, ?_, ?_, ?_⟩, ⟨?_, ?_, ?_⟩, ⟨?_, ?_⟩, ?_, nofun, .nil⟩ <;>
    exact .of_reads (fun _ _ => rfl) (fun _ _ => rfl) fun _ _ _ => rfl

theorem ObservationPart.read {p : ObservationPart} (hfits : ∀ n ∈ p.bufferSize, n < UInt64.size)
    (h : HasFields p.entries j) (o : Observation) :
    readSection observationFields false o j = some (p.onto o) := by
  have henabled : Sets observationFields "enabled" .bool (fun b o => { o with enabled := b })
      p.enabled := ⟨_, rfl, fun _ _ _ => rfl⟩
  have hsize : Sets observationFields "buffer_size" .nat (fun n o => { o with bufferSize := n })
      p.bufferSize := ⟨_, rfl, fun n hn o => by simp [natural?_nat (hfits n hn)]⟩
  have hecho : Sets observationFields "trace_to_stderr" .bool (fun b o => { o with echo := b })
      p.echo := ⟨_, rfl, fun _ _ _ => rfl⟩
  have hjson : Sets observationFields "json_output" .bool (fun b o => { o with json := b })
      p.json := ⟨_, rfl, fun _ _ _ => rfl⟩
  have hprofiling : Sets observationFields "profiling" .bool (fun b o => { o with profiling := b })
      p.profiling := ⟨_, rfl, fun _ _ _ => rfl⟩
  have hkeys : (p.entries.map Prod.fst).Nodup := by
    have hsub : (p.entries.map Prod.fst).Sublist
        ["enabled", "buffer_size", "trace_to_stderr", "json_output", "profiling"] := by
      simp only [entries, List.map_append]
      exact (((keys_given.append keys_given).append keys_given).append keys_given).append keys_given
    exact hsub.nodup (by decide)
  have hreads : ∀ e ∈ p.entries, Reads observationFields e := by
    simp only [entries, List.forall_mem_append]
    exact ⟨⟨⟨⟨henabled.reads, hsize.reads⟩, hecho.reads⟩, hjson.reads⟩, hprofiling.reads⟩
  rw [readSection_of_hasFields independent_observationFields false o hreads hkeys h, entries]
  simp only [List.foldl_append, henabled.foldl, hsize.foldl, hecho.foldl, hjson.foldl, hprofiling.foldl]
  rcases p with ⟨_ | _, _ | _, _ | _, _ | _, _ | _⟩ <;> rfl

/-! ### The whole -/

/-- What a value says of the path. -/
def path? : Json → Option (Option String)
  | .null => some none
  | j => j.string?.map some

theorem setFunctions_eq (j : Json) (s : Settings) :
    setFunctions j s = (path? j).map fun path => { s with functions := path } := by
  cases j <;> simp [setFunctions, path?, Function.comp_def]

theorem setFunctions_pathJson (path : Option String) (s : Settings) :
    setFunctions (Part.pathJson path) s = some { s with functions := path } := by
  have hpath : path? (Part.pathJson path) = some path := by
    cases path with
    | none => rfl
    | some path => exact congrArg (Option.map some) (Json.string?_string path)
  rw [setFunctions_eq, hpath]
  rfl

theorem independent_fields : Independent Settings.fields := by
  simp only [Independent, Settings.fields, List.pairwise_cons, List.mem_cons, List.not_mem_nil, or_false,
    forall_eq_or_imp, forall_eq]
  refine ⟨⟨?_, ?_⟩, ?_, nofun, .nil⟩
  · exact .of_reads (fun _ _ => rfl) (fun _ _ => rfl) fun _ _ _ => rfl
  · exact .of_reads (fun _ _ => rfl) setFunctions_eq fun _ _ _ => rfl
  · exact .of_reads (fun _ _ => rfl) setFunctions_eq fun _ _ _ => rfl

theorem Part.read {p : Part} (hfits : p.Fits) (h : p.IsWritten j) :
    ofJson? j = some (p.onto {}) := by
  obtain ⟨execution, observability, hexecution, hobservability, h⟩ := h
  have hlimits : Sets Settings.fields "execution" (fun _ => execution)
      (fun l s => { s with limits := l.onto {} }) p.limits := ⟨_, rfl, fun l hl s => by
    simp [LimitsPart.read (hfits.limits l hl) (hexecution l hl)]⟩
  have hobservation : Sets Settings.fields "observability" (fun _ => observability)
      (fun o s => { s with observation := o.onto {} }) p.observation := ⟨_, rfl, fun o ho s => by
    simp [ObservationPart.read (hfits.observation o ho) (hobservability o ho)]⟩
  have hfunctions : Sets Settings.fields "functions" pathJson
      (fun path s => { s with functions := path }) p.functions :=
    ⟨_, rfl, fun path _ s => setFunctions_pathJson path s⟩
  rw [ofJson?, readSection_of_hasFields independent_fields true {} ?_ ?_ h, List.foldl_append,
    List.foldl_append, hlimits.foldl, hobservation.foldl, hfunctions.foldl]
  · rcases p with ⟨_ | _, _ | _, _ | _⟩ <;> rfl
  · simp only [List.forall_mem_append]
    exact ⟨⟨hlimits.reads, hobservation.reads⟩, hfunctions.reads⟩
  · simp only [List.map_append]
    exact ((keys_given.append keys_given).append keys_given).nodup (by decide)

/-! ### What is written -/

/-- The part that gives every field. A path that is missing is left out. -/
def Part.full (s : Settings) : Part where
  limits := some ⟨s.limits.commands, s.limits.forks, s.limits.queue⟩
  observation := some ⟨s.observation.enabled, s.observation.bufferSize, s.observation.echo,
    s.observation.json, s.observation.profiling⟩
  functions := s.functions.map some

theorem Part.onto_full (s : Settings) : (full s).onto {} = s := by
  obtain ⟨limits, observation, _ | path⟩ := s <;> rfl

theorem HasFields.refl (entries : List (String × Json)) : HasFields entries (.ofFields entries) :=
  ⟨entries, .refl _, rfl⟩

theorem isWritten_toJson (s : Settings) : (Part.full s).IsWritten s.toJson := by
  refine ⟨limitsJson s.limits, observationJson s.observation, ?_, ?_, ?_⟩
  · rintro _ ⟨⟩
    exact .refl _
  · rintro _ ⟨⟩
    exact .refl _
  · obtain ⟨limits, observation, _ | path⟩ := s <;> exact .refl _

theorem printable_toJson (s : Settings) : s.toJson.Printable := by
  have hlimits : (limitsJson s.limits).Printable := Json.printable_ofFields <| by
    simp [Json.printable_nat]
  have hobservation : (observationJson s.observation).Printable := Json.printable_ofFields <| by
    simp [Json.printable_nat, Json.Printable]
  obtain ⟨limits, observation, _ | path⟩ := s <;>
    exact Json.printable_ofFields (by simp [hlimits, hobservation, Json.printable_string])

theorem isDocument_text (s : Settings) : Json.IsDocument s.text.toList s.toJson := by
  rw [text, String.toList_ofList]
  exact Json.isDocument_of_isValue (Json.isValue_pretty 0 s.toJson (printable_toJson s))

/-- Every limit, and how many records are held, is a word of 64 bits. -/
def Fits (s : Settings) : Prop :=
  ∀ n ∈ [s.limits.commands, s.limits.forks, s.limits.queue, s.observation.bufferSize], n < UInt64.size

theorem Fits.full {s : Settings} (h : s.Fits) : (Part.full s).Fits := by
  simp only [Fits, List.mem_cons, List.not_mem_nil, or_false, forall_eq_or_imp, forall_eq] at h
  constructor
  · rintro _ ⟨⟩
    simpa [LimitsPart.numbers] using ⟨h.1, h.2.1, h.2.2.1⟩
  · rintro _ ⟨⟩ _ ⟨⟩
    exact h.2.2.2

theorem ofText_of_isWritten {p : Part} {text : String} (hfits : p.Fits) (h : p.IsWritten j)
    (htext : Json.IsDocument text.toList j) : ofText text = .ok (p.onto {}) := by
  rw [ofText, Json.parse?_of_isDocument htext, ofJson, Option.bind_some, Part.read hfits h]

/-- **Settings come back from their text, and a text sets exactly the fields it gives.** -/
theorem ofText_exact :
    (∀ s : Settings, s.Fits → ofText s.text = .ok s) ∧
    ∀ (p : Part) (j : Json) (text : String), p.Fits → p.IsWritten j →
      Json.IsDocument text.toList j → ofText text = .ok (p.onto {}) := by
  constructor
  · intro s hfits
    rw [ofText_of_isWritten hfits.full (isWritten_toJson s) (isDocument_text s), Part.onto_full]
  · intro p j text hfits hj htext
    exact ofText_of_isWritten hfits hj htext

/-- A part with one limit, two switches and a path. -/
def sample : Part where
  limits := some { forks := some (UInt64.size - 1) }
  observation := some { profiling := some true, enabled := some false }
  functions := some (some "a \"b\"\nü")

/-- The fields of the sample from the last to the first. -/
def sampleJson : Json := .ofFields [("functions", .string "a \"b\"\nü"),
  ("observability", .ofFields [("profiling", .bool true), ("enabled", .bool false)]),
  ("execution", .ofFields [("fork_limit", .nat (UInt64.size - 1))])]

theorem ofText_exact_sample :
    ofText (String.ofList sampleJson.write) = .ok (sample.onto {}) ∧
      ofText (sample.onto {}).text = .ok (sample.onto {}) := by
  have hfits : sample.Fits := by
    constructor
    · rintro _ ⟨⟩
      simp [LimitsPart.numbers, UInt64.size]
    · rintro _ ⟨⟩ _ ⟨⟩
  have hwritten : sample.IsWritten sampleJson := by
    refine ⟨_, _, ?_, ?_, _, (List.reverse_perm _), rfl⟩
    · rintro _ ⟨⟩
      exact .refl _
    · rintro _ ⟨⟩
      exact ⟨_, List.Perm.swap _ _ _, rfl⟩
  have hprintable : sampleJson.Printable := Json.printable_ofFields <| by
    simp only [List.mem_cons, List.not_mem_nil, or_false, forall_eq_or_imp, forall_eq]
    exact ⟨Json.printable_string _, Json.printable_ofFields (by simp [Json.Printable]),
      Json.printable_ofFields (by simp [Json.printable_nat])⟩
  refine ⟨ofText_exact.2 sample sampleJson _ hfits hwritten ?_, ofText_exact.1 _ ?_⟩
  · rw [String.toList_ofList]
    exact Json.isDocument_of_isValue (Json.isValue_write _ hprintable)
  · simp [Fits, sample, Part.onto, LimitsPart.onto, ObservationPart.onto, UInt64.size]

end Trampoline.Settings
