import Mathlib.Data.Finset.Card
import Trampoline.Function.Compile
import Trampoline.Proofs.Command.Stages

/-! What a templated function keeps between calls.

The bodies that requests gave are written down with the texts they were asked for,
newest first (`Ledger`). A function keeps the newest entry of each list of texts, for
the lists asked for last, and every body in the ledger reads as the one that would
be built for its texts without anything kept. One request preserves this
(`instantiate_keeps`), so it holds after every sequence of requests
(`recalls_of_compile`). -/
namespace Trampoline

/-! ### The newest entries -/

section Latest

variable {κ β : Type} [BEq κ]

/-- The newest entry of each key, newest first. -/
def latest : List (κ × β) → List (κ × β)
  | [] => []
  | entry :: older => entry :: (latest older).filter fun kept => kept.1 != entry.1

theorem mem_latest {entry : κ × β} {log : List (κ × β)} (h : entry ∈ latest log) : entry ∈ log := by
  induction log with
  | nil => exact h
  | cons newest older ih =>
    rcases List.mem_cons.mp h with rfl | h
    · exact List.mem_cons_self
    · exact List.mem_cons_of_mem _ (ih (List.mem_filter.mp h).1)

theorem keys_filter (key : κ) (log : List (κ × β)) :
    (log.filter fun kept => kept.1 != key).map Prod.fst =
      (log.map Prod.fst).filter fun k => k != key := by
  rw [List.filter_map]
  rfl

variable [LawfulBEq κ]

theorem nodup_keys_latest (log : List (κ × β)) : ((latest log).map Prod.fst).Nodup := by
  induction log with
  | nil => exact .nil
  | cons newest older ih =>
    rw [latest, List.map_cons, keys_filter]
    refine List.nodup_cons.mpr ⟨fun hmem => ?_, ih.filter _⟩
    exact absurd (List.mem_filter.mp hmem).2 (by simp)

theorem eraseDups_filter (p : κ → Bool) (keys : List κ) :
    (keys.filter p).eraseDups = keys.eraseDups.filter p := by
  induction hn : keys.length using Nat.strongRecOn generalizing keys with
  | ind n ih =>
    cases keys with
    | nil => rfl
    | cons key rest =>
      have hshorter : (rest.filter fun k => !k == key).length < n := by
        rw [← hn]
        exact Nat.lt_succ_of_le (List.length_filter_le ..)
      have hrest := ih _ hshorter _ rfl
      rw [List.eraseDups_cons]
      by_cases hkey : p key = true
      · rw [List.filter_cons_of_pos hkey, List.filter_cons_of_pos hkey, List.eraseDups_cons, ← hrest,
          List.filter_filter, List.filter_filter]
        simp only [Bool.and_comm]
      · rw [List.filter_cons_of_neg hkey, List.filter_cons_of_neg hkey, ← hrest, List.filter_filter]
        refine congrArg List.eraseDups (List.filter_congr fun k _ => ?_)
        by_cases heq : k = key
        · simp [heq, hkey]
        · simp [heq]

theorem keys_latest (log : List (κ × β)) :
    (latest log).map Prod.fst = (log.map Prod.fst).eraseDups := by
  induction log with
  | nil => rfl
  | cons newest older ih =>
    rw [latest, List.map_cons, keys_filter, ih, List.map_cons, List.eraseDups_cons,
      ← eraseDups_filter]
    rfl

/-- An entry that is brought to the front leaves its place. -/
theorem filter_take_of_mem {key : κ} {entries : List (κ × β)} (hnodup : (entries.map Prod.fst).Nodup)
    {n : Nat} (hmem : key ∈ (entries.take (n + 1)).map Prod.fst) :
    (entries.take (n + 1)).filter (fun kept => kept.1 != key) =
      (entries.filter fun kept => kept.1 != key).take n := by
  induction entries generalizing n with
  | nil => cases hmem
  | cons entry rest ih =>
    obtain ⟨hfirst, hnodup⟩ := List.nodup_cons.mp hnodup
    rw [List.take_succ_cons] at hmem ⊢
    by_cases heq : entry.1 = key
    · have hothers : ∀ kept ∈ rest, (kept.1 != key) = true := by
        intro kept hkept
        rw [← heq, bne_iff_ne]
        exact fun h => hfirst (h ▸ List.mem_map_of_mem hkept)
      rw [List.filter_cons_of_neg (by simp [heq]), List.filter_cons_of_neg (by simp [heq]),
        List.filter_eq_self.mpr fun kept hkept => hothers kept (List.mem_of_mem_take hkept),
        List.filter_eq_self.mpr hothers]
    · have hrest : key ∈ (rest.take n).map Prod.fst :=
        (List.mem_cons.mp hmem).resolve_left fun h => heq h.symm
      cases n with
      | zero => cases hrest
      | succ n =>
        rw [List.filter_cons_of_pos (by simp [heq]), List.filter_cons_of_pos (by simp [heq]),
          List.take_succ_cons, ih hnodup hrest]

/-- An entry that is new pushes out the last one. -/
theorem take_filter_of_not_mem {key : κ} {entries : List (κ × β)} {n : Nat}
    (hmem : key ∉ (entries.take n).map Prod.fst) :
    (entries.filter fun kept => kept.1 != key).take n = entries.take n := by
  induction entries generalizing n with
  | nil => rfl
  | cons entry rest ih =>
    cases n with
    | zero => rfl
    | succ n =>
      rw [List.take_succ_cons, List.map_cons, List.mem_cons, not_or] at hmem
      rw [List.filter_cons_of_pos (by simpa using Ne.symm hmem.1), List.take_succ_cons,
        List.take_succ_cons, ih hmem.2]

end Latest

variable {V : Vocabulary}

/-- A body as it reads: when it was made does not show. -/
def Body.content (body : Body V) : String × List (Chain V) := (body.id, body.lines)

namespace Templated

/-! ### Requests -/

/-- Requests one after the other: what each of them gives, and the function after them. -/
def requests (parse : String → Except CommandError (Chain V)) (t : Templated V) :
    List (Option Record) → List (Except CommandError (Body V)) × Templated V
  | [] => ([], t)
  | arguments :: rest =>
    let (result, t) := t.instantiate parse arguments
    let (results, t) := requests parse t rest
    (result :: results, t)

/-- What a function that keeps nothing gives. -/
def built (parse : String → Except CommandError (Chain V)) (t : Templated V)
    (arguments : Option Record) : Except CommandError (Body V) :=
  t.key arguments >>= t.build parse

/-- The texts a body is asked for, if there is one for them. -/
def asked (parse : String → Except CommandError (Chain V)) (t : Templated V)
    (arguments : Option Record) : Option (List String) :=
  match t.key arguments with
  | .error _ => none
  | .ok values => if (t.build parse values).isOk then some values else none

/-- The bodies that were given, with the texts they were asked for, newest first. -/
abbrev Ledger (V : Vocabulary) := List (List String × Body V)

/-- What one request enters into a ledger. -/
def entry? (t : Templated V) (arguments : Option Record)
    (result : Except CommandError (Body V)) : Option (List String × Body V) :=
  match t.key arguments, result with
  | .ok values, .ok body => some (values, body)
  | _, _ => none

/-- What requests enter into a ledger. -/
def ledger (t : Templated V) (arguments : List (Option Record))
    (results : List (Except CommandError (Body V))) : Ledger V :=
  ((arguments.zip results).filterMap fun (arguments, result) => t.entry? arguments result).reverse

variable {parse : String → Except CommandError (Chain V)} {t now : Templated V}
  {past : Ledger V} {arguments : Option Record} {values : List String} {body : Body V}

/-- What is built depends on the lines only, except for when it was made. -/
theorem content_build (parse : String → Except CommandError (Chain V)) (t : Templated V)
    (cache : List (List String × Body V)) (made : Nat) (values : List String) :
    (build parse { t with cache, made } values).map Body.content =
      (t.build parse values).map Body.content := by
  unfold build
  change (t.lines.mapM (fillLine parse (t.bodyId values) values) >>= _).map _ =
    (t.lines.mapM (fillLine parse (t.bodyId values) values) >>= _).map _
  cases t.lines.mapM (fillLine parse (t.bodyId values) values) <;> rfl

theorem eq_error_of_map {ε α β : Type} {f : α → β} {x : Except ε α} {e : ε}
    (h : x.map f = .error e) : x = .error e := by
  cases x with
  | error e' => exact congrArg Except.error (Except.error.inj h)
  | ok a => cases h

theorem isOk_of_map {ε α β : Type} {f : α → β} {x : Except ε α} {b : β} (h : x.map f = .ok b) :
    x.isOk = true := by
  cases x with
  | error e => cases h
  | ok a => rfl

theorem serial_of_build (h : t.build parse values = .ok body) : body.serial = t.made := by
  unfold build at h
  cases hlines : t.lines.mapM (fillLine parse (t.bodyId values) values) with
  | error e =>
    simp only [hlines] at h
    cases h
  | ok lines =>
    simp only [hlines] at h
    cases h
    rfl

/-! ### One request -/

/-- A function as compiled has become what it is now, and has given the bodies of a ledger. -/
structure Became (parse : String → Except CommandError (Chain V)) (t : Templated V)
    (past : Ledger V) (now : Templated V) : Prop where
  same : ∃ made, now = { t with cache := (latest past).take cacheCapacity, made }
  reads : ∀ entry ∈ past, (t.build parse entry.1).map Body.content = .ok entry.2.content
  older : ∀ entry ∈ past, entry.2.serial < now.made

theorem Became.cache (h : Became parse t past now) :
    now.cache = (latest past).take cacheCapacity := by
  obtain ⟨made, rfl⟩ := h.same
  rfl

theorem Became.key (h : Became parse t past now) (arguments : Option Record) :
    now.key arguments = t.key arguments := by
  obtain ⟨made, rfl⟩ := h.same
  rfl

theorem Became.content_build (h : Became parse t past now) (values : List String) :
    (now.build parse values).map Body.content = (t.build parse values).map Body.content := by
  obtain ⟨made, rfl⟩ := h.same
  exact Templated.content_build ..

/-- The entry of a list of texts that is kept. -/
theorem Became.mem_of_lookup (h : Became parse t past now)
    (hkept : now.cache.lookup values = some body) : (values, body) ∈ now.cache ∧
      (values, body) ∈ past := by
  obtain ⟨before, after, hcache, -⟩ := List.lookup_eq_some_iff.mp hkept
  have hmem : (values, body) ∈ now.cache := by simp [hcache]
  exact ⟨hmem, mem_latest (List.mem_of_mem_take (h.cache ▸ hmem))⟩

/-- A list of texts has one body at a time. -/
theorem Became.lookup_of_mem (h : Became parse t past now) (hmem : (values, body) ∈ now.cache) :
    now.cache.lookup values = some body := by
  obtain ⟨before, after, hcache⟩ := List.append_of_mem hmem
  have hnodup : (now.cache.map Prod.fst).Nodup := by
    rw [h.cache, List.map_take]
    exact (nodup_keys_latest past).sublist (List.take_sublist ..)
  refine List.lookup_eq_some_iff.mpr ⟨before, after, hcache, fun entry hentry => ?_⟩
  rw [hcache, List.map_append, List.map_cons, List.nodup_append] at hnodup
  rw [bne_iff_ne]
  exact fun heq => hnodup.2.2 _ (List.mem_map_of_mem hentry) values List.mem_cons_self heq.symm

/-- What one request can do. -/
inductive Answers (parse : String → Except CommandError (Chain V)) (now : Templated V)
    (arguments : Option Record) : Except CommandError (Body V) × Templated V → Prop where
  | refused {e : CommandError} (hrefused : now.key arguments = .error e) :
      Answers parse now arguments (.error e, now)
  | failed {values : List String} {e : CommandError} (hkey : now.key arguments = .ok values)
      (hmissing : now.cache.lookup values = none) (hbuild : now.build parse values = .error e) :
      Answers parse now arguments (.error e, now)
  | held {values : List String} {body : Body V} (hkey : now.key arguments = .ok values)
      (hheld : now.cache.lookup values = some body) :
      Answers parse now arguments (.ok body, { now with
        cache := (values, body) :: now.cache.filter fun kept => kept.1 != values })
  | made {values : List String} {body : Body V} (hkey : now.key arguments = .ok values)
      (hmissing : now.cache.lookup values = none) (hbuild : now.build parse values = .ok body) :
      Answers parse now arguments (.ok body, { now with
        cache := (values, body) :: now.cache.take (cacheCapacity - 1), made := now.made + 1 })

theorem answers_instantiate (parse : String → Except CommandError (Chain V)) (now : Templated V)
    (arguments : Option Record) : Answers parse now arguments (now.instantiate parse arguments) := by
  unfold instantiate
  split
  · next e hrefused => exact .refused hrefused
  · next values hkey =>
    split
    · next body hheld => exact .held hkey hheld
    · next hmissing =>
      split
      · next e hbuild => exact .failed hkey hmissing hbuild
      · next body hbuild => exact .made hkey hmissing hbuild

/-- An entry that is in the ledger already comes to the front, and one that is not pushes out the
last. -/
theorem Became.add (h : Became parse t past now) {made : Nat}
    (hreads : (t.build parse values).map Body.content = .ok body.content)
    (holder : body.serial < made) (hmade : now.made ≤ made) {kept : List (List String × Body V)}
    (hkept : kept = ((latest past).filter fun entry => entry.1 != values).take (cacheCapacity - 1)) :
    Became parse t ((values, body) :: past) { now with cache := (values, body) :: kept, made } := by
  obtain ⟨_, rfl⟩ := h.same
  refine ⟨⟨made, ?_⟩, List.forall_mem_cons.mpr ⟨hreads, h.reads⟩, List.forall_mem_cons.mpr
    ⟨holder, fun entry hentry => Nat.lt_of_lt_of_le (h.older entry hentry) hmade⟩⟩
  rw [hkept]
  rfl

/-- A request gives what a function without anything kept would give, and enters what it gave into
the ledger. -/
theorem instantiate_keeps (h : Became parse t past now) (arguments : Option Record) :
    (now.instantiate parse arguments).1.map Body.content =
        (t.built parse arguments).map Body.content ∧
      Became parse t ((t.entry? arguments (now.instantiate parse arguments).1).toList ++ past)
        (now.instantiate parse arguments).2 ∧
      (t.entry? arguments (now.instantiate parse arguments).1).map Prod.fst =
        t.asked parse arguments := by
  have hanswers := answers_instantiate parse now arguments
  generalize now.instantiate parse arguments = answer at hanswers
  have hkeyed := h.key arguments
  unfold built entry? asked
  cases hanswers with
  | refused hrefused =>
    rw [← hkeyed, hrefused]
    exact ⟨rfl, h, rfl⟩
  | @failed values e hkey hmissing hbuild =>
    have hbuilt : t.build parse values = .error e := by
      have hnow := h.content_build values
      rw [hbuild] at hnow
      exact eq_error_of_map hnow.symm
    simp only [← hkeyed, hkey]
    exact ⟨by rw [← hbuilt]; rfl, h, by rw [hbuilt]; rfl⟩
  | @held values body hkey hheld =>
    obtain ⟨hcached, hpast⟩ := h.mem_of_lookup hheld
    have hreads := h.reads _ hpast
    simp only [← hkeyed, hkey]
    refine ⟨hreads.symm, h.add hreads (h.older _ hpast) (Nat.le_refl _) ?_, ?_⟩
    · rw [h.cache] at hcached ⊢
      exact filter_take_of_mem (nodup_keys_latest past) (List.mem_map_of_mem hcached)
    · rw [if_pos (isOk_of_map hreads)]
      rfl
  | @made values body hkey hmissing hbuild =>
    have hreads := h.content_build values
    rw [hbuild] at hreads
    have hserial := serial_of_build hbuild
    simp only [← hkeyed, hkey]
    refine ⟨hreads, h.add hreads.symm (hserial ▸ Nat.lt_succ_self _) (Nat.le_succ _) ?_, ?_⟩
    · -- a store that is full loses its last entry, and the others are the latest but one fewer
      have hnew : values ∉ ((latest past).take (cacheCapacity - 1)).map Prod.fst := by
        intro hmem
        obtain ⟨entry, hentry, rfl⟩ := List.mem_map.mp hmem
        rw [show cacheCapacity - 1 = min (cacheCapacity - 1) cacheCapacity from rfl, ← List.take_take,
          ← h.cache] at hentry
        exact absurd (List.lookup_eq_none_iff.mp hmissing entry (List.mem_of_mem_take hentry)) (by simp)
      rw [h.cache, List.take_take, take_filter_of_not_mem hnew]
      rfl
    · rw [if_pos (isOk_of_map hreads.symm)]
      rfl

/-! ### Any sequence of requests -/

theorem ledger_cons (t : Templated V) (arguments : Option Record) (rest : List (Option Record))
    (result : Except CommandError (Body V)) (results : List (Except CommandError (Body V))) :
    t.ledger (arguments :: rest) (result :: results) =
      t.ledger rest results ++ (t.entry? arguments result).toList := by
  unfold ledger
  rw [List.zip_cons_cons, List.filterMap_cons]
  dsimp only
  cases t.entry? arguments result with
  | none => exact (List.append_nil _).symm
  | some entry => exact List.reverse_cons

/-- A sequence of requests gives what a function without anything kept would give, and enters what
it gave into the ledger. -/
theorem requests_keep (h : Became parse t past now) (arguments : List (Option Record)) :
    (now.requests parse arguments).1.map (·.map Body.content) =
        arguments.map (fun arguments => (t.built parse arguments).map Body.content) ∧
      Became parse t (t.ledger arguments (now.requests parse arguments).1 ++ past)
        (now.requests parse arguments).2 ∧
      (t.ledger arguments (now.requests parse arguments).1).map Prod.fst =
        (arguments.filterMap (t.asked parse)).reverse := by
  induction arguments generalizing past now with
  | nil => exact ⟨rfl, h, rfl⟩
  | cons arguments rest ih =>
    obtain ⟨hresult, hbecame, hasked⟩ := instantiate_keeps h arguments
    obtain ⟨hresults, hbecame, hrest⟩ := ih hbecame
    unfold requests
    simp only [ledger_cons]
    refine ⟨by rw [List.map_cons, List.map_cons, hresult, hresults], ?_, ?_⟩
    · rw [List.append_assoc]
      exact hbecame
    · rw [List.map_append, hrest, List.filterMap_cons, ← hasked]
      cases t.entry? arguments (now.instantiate parse arguments).1 with
      | none => exact List.append_nil _
      | some entry => exact List.reverse_cons.symm

/-- What requests to a function give, and what it keeps of them. -/
structure Recalls (parse : String → Except CommandError (Chain V)) (t : Templated V)
    (past : List (Option Record)) (answer : List (Except CommandError (Body V)) × Templated V) :
    Prop where
  /-- Every request gives what a function that keeps nothing gives. -/
  transparent : answer.1.map (·.map Body.content) =
    past.map fun arguments => (t.built parse arguments).map Body.content
  /-- The newest bodies are kept, for the lists of texts that were asked for last. -/
  kept : answer.2.cache = (latest (t.ledger past answer.1)).take cacheCapacity
  keys : answer.2.cache.map Prod.fst =
    (past.filterMap (t.asked parse)).reverse.eraseDups.take cacheCapacity
  count : answer.2.cache.length = min cacheCapacity (past.filterMap (t.asked parse)).toFinset.card
  /-- A request that fails changes nothing. -/
  failing : ∀ arguments e, (answer.2.instantiate parse arguments).1 = .error e →
    (answer.2.instantiate parse arguments).2 = answer.2
  /-- A body that is kept is given again. -/
  held : ∀ arguments values body, t.key arguments = .ok values → (values, body) ∈ answer.2.cache →
    (answer.2.instantiate parse arguments).1 = .ok body
  /-- Any other body was never given before. -/
  fresh : ∀ arguments values body, t.key arguments = .ok values →
    values ∉ answer.2.cache.map Prod.fst → (answer.2.instantiate parse arguments).1 = .ok body →
    ∀ entry ∈ t.ledger past answer.1, entry.2.serial < body.serial

theorem Answers.eq_of_error {answer : Except CommandError (Body V) × Templated V} {e : CommandError}
    (h : Answers parse now arguments answer) (herror : answer.1 = .error e) : answer.2 = now := by
  cases h with
  | refused _ => rfl
  | failed _ _ _ => rfl
  | held _ _ => cases herror
  | made _ _ _ => cases herror

theorem Became.held (h : Became parse t past now) (hkey : t.key arguments = .ok values)
    (hmem : (values, body) ∈ now.cache) : (now.instantiate parse arguments).1 = .ok body := by
  unfold instantiate
  rw [h.key, hkey]
  simp only [h.lookup_of_mem hmem]

theorem Became.fresh (h : Became parse t past now) (hkey : t.key arguments = .ok values)
    (hmem : values ∉ now.cache.map Prod.fst)
    (hresult : (now.instantiate parse arguments).1 = .ok body) :
    ∀ entry ∈ past, entry.2.serial < body.serial := by
  have hanswers := answers_instantiate parse now arguments
  generalize now.instantiate parse arguments = answer at hanswers hresult
  rw [← h.key] at hkey
  cases hanswers with
  | refused _ => cases hresult
  | failed _ _ _ => cases hresult
  | held hkey' hheld =>
    cases hkey.symm.trans hkey'
    exact absurd (List.mem_map_of_mem (h.mem_of_lookup hheld).1) hmem
  | made _ _ hbuild =>
    cases hresult
    rw [serial_of_build hbuild]
    exact h.older

theorem Became.recalls (h : Became parse t [] now) (past : List (Option Record)) :
    Recalls parse t past (now.requests parse past) := by
  obtain ⟨htransparent, hbecame, hkeys⟩ := requests_keep h past
  rw [List.append_nil] at hbecame
  have hcard : (latest (t.ledger past (now.requests parse past).1)).length =
      (past.filterMap (t.asked parse)).toFinset.card := by
    rw [← List.length_map Prod.fst, ← List.toFinset_card_of_nodup (nodup_keys_latest _), keys_latest,
      hkeys]
    refine congrArg Finset.card (Finset.ext fun values => ?_)
    rw [List.mem_toFinset, List.mem_toFinset, List.mem_eraseDups, List.mem_reverse]
  exact {
    transparent := htransparent
    kept := hbecame.cache
    keys := by rw [hbecame.cache, List.map_take, keys_latest, hkeys]
    count := by rw [hbecame.cache, List.length_take, hcard]
    failing := fun arguments e => (answers_instantiate ..).eq_of_error
    held := fun arguments values body => hbecame.held
    fresh := fun arguments values body => hbecame.fresh }

end Templated

/-- A function that has been compiled to a templated one keeps nothing yet. -/
theorem Function.became_of_compile {parse : Nat → String → Except CommandError (Chain V)}
    {id : String} {permission : Nat} {lines : List String} {t : Templated V}
    (h : Function.compile parse id permission lines = .ok (.templated t)) :
    Templated.Became (parse t.permission) t [] t := by
  obtain ⟨items, -, h⟩ := Command.ok_of_bind h
  unfold Compile.assemble at h
  split at h
  · cases h
  · cases h
    exact ⟨⟨0, rfl⟩, fun _ hentry => absurd hentry List.not_mem_nil,
      fun _ hentry => absurd hentry List.not_mem_nil⟩

/-- **What a templated function keeps does not show, except in which body it gives**: after any
requests, whatever their arguments. -/
theorem Function.recalls_of_compile (parse : Nat → String → Except CommandError (Chain V))
    {id : String} {permission : Nat} {lines : List String} {t : Templated V}
    (h : Function.compile parse id permission lines = .ok (.templated t))
    (past : List (Option Record)) :
    Templated.Recalls (parse t.permission) t past (t.requests (parse t.permission) past) :=
  (Function.became_of_compile h).recalls past

namespace Templated

/-- Greets someone by name. -/
def greet : Templated Command.standard where
  id := "t:greet"
  lines := [
    .plain ⟨"say hello", [], { input := "say hello", executable := some (.command (.say "hello")) }, []⟩,
    .template ⟨[("say ".toList, "name")], []⟩ [0] 2]
  parameters := ["name"]
  permission := 2

theorem greet_recalls :
    Function.compile Command.parse "t:greet" 2 ["say hello", "$say $(name)"] =
        .ok (.templated greet) ∧
      Recalls (Command.parse 2) greet [some [("name", .text "Ada")], none, some [("name", .text "Ada")]]
        (greet.requests (Command.parse 2)
          [some [("name", .text "Ada")], none, some [("name", .text "Ada")]]) := by
  have hcompile : Function.compile Command.parse "t:greet" 2 ["say hello", "$say $(name)"] =
      .ok (.templated greet) := rfl
  exact ⟨hcompile, Function.recalls_of_compile Command.parse hcompile _⟩

end Templated

end Trampoline
