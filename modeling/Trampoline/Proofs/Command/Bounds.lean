import Trampoline.Host
import Trampoline.Proofs.Command.Stages
import Trampoline.Proofs.NameMap

/-! How long the bodies of a library can get.

A function makes bodies of as many lines as it has itself, and no line that is read
is longer than the longest a function may have; so each stage of a chain being at
least a character, chains are bounded too. `within_instantiate` says that a call
keeps the bounds, `exists_within` that every library has some, and `sized_loadLines`
that those of compiled functions are known. -/
namespace Trampoline

open Command (standard)

/-- How many lines a body may have, and how many stages may follow the first of a chain. -/
structure Bounds where
  lines : Nat
  stages : Nat

variable {b b' : Bounds}

structure Body.Within (b : Bounds) (body : Body standard) : Prop where
  lines : body.lines.length ≤ b.lines
  stages : ∀ chain ∈ body.lines, chain.after.length ≤ b.stages

structure Templated.Within (b : Bounds) (t : Templated standard) : Prop where
  lines : t.lines.length ≤ b.lines
  stages : ∀ chain, .plain chain ∈ t.lines → chain.after.length ≤ b.stages
  /-- The bodies it keeps. -/
  cache : ∀ kept ∈ t.cache, kept.2.Within b

def Function.Within (b : Bounds) : Function standard → Prop
  | .plain body => body.Within b
  | .templated t => t.Within b

def Library.Within (b : Bounds) (l : Library) : Prop := ∀ entry ∈ l, entry.2.Within b

theorem Body.Within.mono {body : Body standard} (h : body.Within b) (hl : b.lines ≤ b'.lines)
    (hs : b.stages ≤ b'.stages) : body.Within b' :=
  ⟨Nat.le_trans h.lines hl, fun chain hc => Nat.le_trans (h.stages chain hc) hs⟩

theorem Function.Within.mono {f : Function standard} (h : f.Within b) (hl : b.lines ≤ b'.lines)
    (hs : b.stages ≤ b'.stages) : f.Within b' := by
  cases f with
  | plain body => exact Body.Within.mono h hl hs
  | templated t =>
    obtain ⟨lines, stages, cache⟩ := h
    exact ⟨Nat.le_trans lines hl, fun chain hc => Nat.le_trans (stages chain hc) hs,
      fun kept hk => (cache kept hk).mono hl hs⟩

/-! ### Lists of results -/

/-- If all of a list was turned into something, each result comes from an item. -/
theorem mem_of_mapM_ok {ε α β : Type} {f : α → Except ε β} {as : List α} {bs : List β}
    (h : as.mapM f = .ok bs) : bs.length = as.length ∧ ∀ b ∈ bs, ∃ a ∈ as, f a = .ok b := by
  induction as generalizing bs with
  | nil =>
    cases h
    exact ⟨rfl, fun _ hb => absurd hb List.not_mem_nil⟩
  | cons a as ih =>
    rw [List.mapM_cons] at h
    obtain ⟨b, hb, h⟩ := Command.ok_of_bind h
    obtain ⟨rest, hrest, h⟩ := Command.ok_of_bind h
    cases h
    obtain ⟨hlength, hmem⟩ := ih hrest
    refine ⟨congrArg (· + 1) hlength, List.forall_mem_cons.mpr ⟨⟨a, List.mem_cons_self, hb⟩, ?_⟩⟩
    intro b' hb'
    obtain ⟨a', ha', hf⟩ := hmem b' hb'
    exact ⟨a', List.mem_cons_of_mem _ ha', hf⟩

/-! ### A call -/

theorem le_of_overlong {line : List Char} (h : overlong line = none) :
    line.length ≤ maxLineLength := by
  unfold overlong at h
  split at h
  · next hle => exact hle
  · cases h

/-- A body has a line for each line of its function: the same chain, or one that was parsed from a
text that is not too long. -/
theorem Templated.lines_of_build {t : Templated standard}
    {parse : String → Except CommandError (Chain standard)} {values : List String}
    {body : Body standard} (h : t.build parse values = .ok body) :
    body.lines.length = t.lines.length ∧ ∀ chain ∈ body.lines,
      .plain chain ∈ t.lines ∨ ∃ text, overlong text.toList = none ∧ parse text = .ok chain := by
  obtain ⟨lines, hlines, h⟩ := Command.ok_of_bind h
  cases h
  obtain ⟨hlength, hmem⟩ := mem_of_mapM_ok hlines
  refine ⟨hlength, fun chain hchain => ?_⟩
  obtain ⟨line, hline, hfill⟩ := hmem chain hchain
  cases line with
  | plain chain' =>
    cases hfill
    exact .inl hline
  | template template slots number =>
    unfold fillLine at hfill
    simp only at hfill
    split at hfill
    · cases hfill
    · next hshort =>
      split at hfill
      · next hparse =>
        cases hfill
        exact .inr ⟨_, hshort, hparse⟩
      · cases hfill

/-- An instantiation fails and changes nothing, or gives a body it kept or made, and then keeps that
body beside some of those it kept before. -/
theorem Templated.instantiate_cases (t : Templated standard)
    (parse : String → Except CommandError (Chain standard)) (arguments : Option Record) :
    (∃ e, t.instantiate parse arguments = (.error e, t)) ∨
      ∃ values body cache made,
        t.instantiate parse arguments = (.ok body, { t with cache, made }) ∧
          ((values, body) ∈ t.cache ∨ t.build parse values = .ok body) ∧
          ∀ kept ∈ cache, kept = (values, body) ∨ kept ∈ t.cache := by
  unfold instantiate
  split
  · next e _ => exact .inl ⟨e, rfl⟩
  · next values hkey =>
    split
    · next body hkept =>
      obtain ⟨before, after, hcache, -⟩ := List.lookup_eq_some_iff.mp hkept
      refine .inr ⟨values, body, _, t.made, rfl, .inl (by rw [hcache]; simp), fun kept hkept => ?_⟩
      exact (List.mem_cons.mp hkept).imp_right fun h => (List.mem_filter.mp h).1
    · split
      · next e _ => exact .inl ⟨e, rfl⟩
      · next body hbuild =>
        refine .inr ⟨values, body, _, t.made + 1, rfl, .inr hbuild, fun kept hkept => ?_⟩
        exact (List.mem_cons.mp hkept).imp_right List.mem_of_mem_take

/-- Every body that a templated function makes is as long as the function. -/
theorem Templated.within_build {t : Templated standard} {permission : Nat} {values : List String}
    {body : Body standard} (ht : t.Within b) (hb : maxLineLength ≤ b.stages)
    (h : t.build (Command.parse permission) values = .ok body) : body.Within b := by
  obtain ⟨hlength, hlines⟩ := lines_of_build h
  refine ⟨hlength ▸ ht.lines, fun chain hchain => ?_⟩
  rcases hlines chain hchain with hplain | ⟨text, hshort, hparse⟩
  · exact ht.stages chain hplain
  · exact Nat.le_trans (Nat.le_of_lt (Command.length_after_parse hparse))
      (Nat.le_trans (le_of_overlong hshort) hb)

theorem Templated.within_instantiate {t : Templated standard} {permission : Nat}
    (ht : t.Within b) (hb : maxLineLength ≤ b.stages) (arguments : Option Record) :
    (∀ body, (t.instantiate (Command.parse permission) arguments).1 = .ok body → body.Within b) ∧
      (t.instantiate (Command.parse permission) arguments).2.Within b := by
  rcases t.instantiate_cases (Command.parse permission) arguments with
    ⟨e, h⟩ | ⟨values, body, cache, made, h, hbody, hcache⟩
  · rw [h]
    exact ⟨fun _ h => (nomatch h), ht⟩
  · have hwithin : body.Within b := hbody.elim (ht.cache (values, body)) (within_build ht hb)
    rw [h]
    refine ⟨fun body' h => Except.ok.inj h ▸ hwithin, ht.lines, ht.stages, fun kept hkept => ?_⟩
    rcases hcache kept hkept with rfl | hkept
    · exact hwithin
    · exact ht.cache kept hkept

theorem Function.within_instantiate {f : Function standard} (hf : f.Within b)
    (hb : maxLineLength ≤ b.stages) (arguments : Option Record) :
    (∀ body, (f.instantiate Command.parse arguments).1 = .ok body → body.Within b) ∧
      (f.instantiate Command.parse arguments).2.Within b := by
  cases f with
  | plain body => exact ⟨fun body' h => Except.ok.inj h ▸ hf, hf⟩
  | templated t => exact Templated.within_instantiate hf hb arguments

theorem Library.mem_of_find? {l : Library} {id : String} {f : Function standard}
    (h : l.find? id = some f) : ∃ name, (name, f) ∈ l := by
  unfold find? at h
  split at h
  · next hget =>
    cases h
    exact ⟨id, NameMap.mem_of_get? hget⟩
  · split at h
    · cases h
    · exact ⟨_, NameMap.mem_of_get? h⟩

/-- What every function of a library has, and keeps when it is instantiated, a call leaves as it
is; and it gives a body of the kind that such functions give. -/
theorem Library.instantiate_keeps {P : Function standard → Prop} {Q : Body standard → Prop}
    (h : ∀ f, P f → ∀ arguments,
      (∀ body, (f.instantiate Command.parse arguments).1 = .ok body → Q body) ∧
        P (f.instantiate Command.parse arguments).2)
    {l : Library} (hl : ∀ entry ∈ l, P entry.2) (id : String) (arguments : Option Record) :
    (∀ body, (l.instantiate id arguments).1 = .ok body → Q body) ∧
      ∀ entry ∈ (l.instantiate id arguments).2, P entry.2 := by
  unfold instantiate
  split
  · exact ⟨fun _ h => (nomatch h), hl⟩
  · next f hfind =>
    obtain ⟨name, hmem⟩ := mem_of_find? hfind
    obtain ⟨hbody, hf⟩ := h f (hl (name, f) hmem) arguments
    refine ⟨hbody, fun entry he => ?_⟩
    rcases NameMap.mem_insert he with rfl | he
    · exact hf
    · exact hl entry he

/-- A call gives a body within the bounds, and leaves the library within them. -/
theorem Library.within_instantiate {l : Library} (hl : l.Within b) (hb : maxLineLength ≤ b.stages)
    (id : String) (arguments : Option Record) :
    (∀ body, (l.instantiate id arguments).1 = .ok body → body.Within b) ∧
      (l.instantiate id arguments).2.Within b :=
  instantiate_keeps (fun _ hf => Function.within_instantiate hf hb) hl id arguments

/-! ### Every library has bounds -/

/-- A bound for each item that larger numbers keep gives one for all of them. -/
theorem exists_forall_mem {α : Type} {P : Nat → α → Prop} (as : List α)
    (mono : ∀ n k a, n ≤ k → P n a → P k a) (h : ∀ a ∈ as, ∃ n, P n a) : ∃ n, ∀ a ∈ as, P n a := by
  induction as with
  | nil => exact ⟨0, fun _ ha => absurd ha List.not_mem_nil⟩
  | cons a as ih =>
    obtain ⟨n, hn⟩ := h a List.mem_cons_self
    obtain ⟨k, hk⟩ := ih fun a' ha' => h a' (List.mem_cons_of_mem _ ha')
    refine ⟨max n k, List.forall_mem_cons.mpr ⟨mono _ _ _ (Nat.le_max_left ..) hn, ?_⟩⟩
    exact fun a' ha' => mono _ _ _ (Nat.le_max_right ..) (hk a' ha')

theorem exists_le {α : Type} (size : α → Nat) (as : List α) : ∃ n, ∀ a ∈ as, size a ≤ n :=
  exists_forall_mem as (fun _ _ _ hle h => Nat.le_trans h hle) fun a _ => ⟨size a, Nat.le_refl _⟩

theorem Body.exists_within (body : Body standard) : ∃ n, body.Within ⟨n, n⟩ := by
  obtain ⟨n, hn⟩ := exists_le (fun chain => chain.after.length) body.lines
  exact ⟨max body.lines.length n, Nat.le_max_left .., fun chain hchain =>
    Nat.le_trans (hn chain hchain) (Nat.le_max_right ..)⟩

theorem Function.exists_within (f : Function standard) : ∃ n, f.Within ⟨n, n⟩ := by
  cases f with
  | plain body => exact body.exists_within
  | templated t =>
    obtain ⟨n, hn⟩ := exists_le (fun
      | .plain chain => chain.after.length
      | .template .. => 0) t.lines
    obtain ⟨k, hk⟩ := exists_forall_mem (P := fun n kept => Body.Within ⟨n, n⟩ kept.2) t.cache
      (fun _ _ _ hle h => h.mono hle hle) fun kept _ => kept.2.exists_within
    refine ⟨max t.lines.length (max n k), Nat.le_max_left .., fun chain hchain => ?_,
      fun kept hkept => ?_⟩
    · have hle : chain.after.length ≤ n := hn (.plain chain) hchain
      simp only
      omega
    · have hle : k ≤ max t.lines.length (max n k) := by omega
      exact (hk kept hkept).mono hle hle

theorem Library.exists_within (l : Library) :
    ∃ b : Bounds, maxLineLength ≤ b.stages ∧ l.Within b := by
  obtain ⟨n, hn⟩ := exists_forall_mem (P := fun n entry => Function.Within ⟨n, n⟩ entry.2) l
    (fun _ _ _ hle h => h.mono hle hle) fun entry _ => entry.2.exists_within
  refine ⟨⟨n, max n maxLineLength⟩, Nat.le_max_right .., fun entry hentry => ?_⟩
  exact (hn entry hentry).mono (Nat.le_refl _) (Nat.le_max_left ..)

/-! ### Compiled functions -/

/-- A function whose bodies are as long as it is, with no more stages than a line has characters. -/
def Function.Sized (f : Function standard) : Prop := f.Within ⟨f.size, maxLineLength⟩

def Library.Sized (l : Library) : Prop := ∀ entry ∈ l, entry.2.Sized

namespace Compile

/-- A line that was joined is not too long. -/
theorem length_join (number : Nat) (open_ : Option (Nat × Backlog Char)) (lines : List (List Char)) :
    ∀ line ∈ join number open_ lines, ∀ text, line.text = .ok text →
      text.length ≤ maxLineLength := by
  fun_induction join number open_ lines with
  | case1 number => simp
  | case2 number start newest => simp
  | case3 number line rest text hcontinues ih => exact ih
  | case4 number line rest text hcontinues kind hlong => simp
  | case5 number line rest text hcontinues hshort ih =>
    refine List.forall_mem_cons.mpr ⟨fun text' h => ?_, ih⟩
    cases h
    exact le_of_overlong hshort
  | case6 number start newest line rest newest' hlong => simp
  | case7 number start newest line rest newest' hshort hcontinues ih => exact ih
  | case8 number start newest line rest newest' hshort hcontinues ih =>
    refine List.forall_mem_cons.mpr ⟨fun text' h => ?_, ih⟩
    cases h
    rw [List.length_reverse, ← newest'.size_eq]
    exact Nat.le_of_not_lt hshort

/-- The chain of a joined line is parsed from its text. -/
theorem parse_of_readJoined {id : String} {permission : Nat} {line : Joined}
    {chain : Chain standard}
    (h : readJoined (Command.parse permission) id line = .ok (some (.command chain))) :
    ∃ text, line.text = .ok text ∧ Command.parse permission (String.ofList text) = .ok chain := by
  unfold readJoined at h
  split at h
  · cases h
  · next text htext =>
    split at h
    · cases h
    · next hread =>
      cases h
      unfold readLine at hread
      split at hread
      · cases hread
      · cases hread
      · cases hread
      · split at hread <;> cases hread
      · split at hread
        · next hparse =>
          cases hread
          exact ⟨_, htext, hparse⟩
        · cases hread

theorem length_readJoined {id : String} {permission : Nat} {line : Joined} {chain : Chain standard}
    (hlength : ∀ text, line.text = .ok text → text.length ≤ maxLineLength)
    (h : readJoined (Command.parse permission) id line = .ok (some (.command chain))) :
    chain.after.length ≤ maxLineLength := by
  obtain ⟨text, htext, hparse⟩ := parse_of_readJoined h
  have hless := Command.length_after_parse hparse
  rw [String.toList_ofList] at hless
  exact Nat.le_trans (Nat.le_of_lt hless) (hlength text htext)

theorem mem_parametersOf {V : Vocabulary} {items : List (Item V)} {template : Template} {line : Nat}
    (h : .template template line ∈ items) {name : String} (hname : name ∈ template.names) :
    name ∈ parametersOf items :=
  List.mem_eraseDups.mpr (List.mem_flatMap.mpr ⟨_, h, hname⟩)

theorem mem_of_chains? {items : List (Item standard)} {chains : List (Chain standard)}
    (h : chains? items = some chains) : ∀ chain ∈ chains, .command chain ∈ items := by
  induction items generalizing chains with
  | nil =>
    cases h
    exact fun _ hchain => absurd hchain List.not_mem_nil
  | cons item items ih =>
    unfold chains? at h
    rw [List.mapM_cons] at h
    obtain ⟨chain, hitem, h⟩ := Option.bind_eq_some_iff.mp h
    obtain ⟨rest, hrest, h⟩ := Option.bind_eq_some_iff.mp h
    cases h
    cases item with
    | template template line => cases hitem
    | command chain' =>
      cases hitem
      refine List.forall_mem_cons.mpr ⟨List.mem_cons_self, fun chain hchain => ?_⟩
      exact List.mem_cons_of_mem _ (ih hrest chain hchain)

theorem sized_assemble {id : String} {permission : Nat} {items : List (Item standard)}
    (h : ∀ chain, .command chain ∈ items → chain.after.length ≤ maxLineLength) :
    (assemble id permission items).Sized := by
  unfold assemble
  split
  · next chains hchains =>
    exact ⟨Nat.le_refl _, fun chain hchain => h chain (mem_of_chains? hchains chain hchain)⟩
  · refine ⟨Nat.le_refl _, fun chain hchain => ?_, fun _ hkept => absurd hkept List.not_mem_nil⟩
    obtain ⟨item, hitem, heq⟩ := List.mem_map.mp hchain
    cases item with
    | template template line => cases heq
    | command chain' =>
      cases heq
      exact h chain hitem

end Compile

theorem Function.sized_compile {id : String} {permission : Nat} {lines : List String}
    {f : Function standard} (h : Function.compile Command.parse id permission lines = .ok f) :
    f.Sized := by
  obtain ⟨items, hitems, h⟩ := Command.ok_of_bind h
  cases h
  obtain ⟨-, hmem⟩ := mem_of_mapM_ok hitems
  refine Compile.sized_assemble fun chain hchain => ?_
  obtain ⟨item, hitem, rfl⟩ := List.mem_filterMap.mp hchain
  obtain ⟨line, hline, hread⟩ := hmem _ hitem
  exact Compile.length_readJoined (Compile.length_join _ _ _ line hline) hread

/-- Loading a function keeps a library of compiled functions one. -/
theorem Library.sized_loadLines {l l' : Library} {id name : String} {lines : List String}
    (hl : l.Sized) (h : l.loadLines id lines = .ok (name, l')) : l'.Sized := by
  obtain ⟨f, hf, h⟩ := Command.ok_of_bind h
  cases h
  intro entry hentry
  rcases NameMap.mem_insert hentry with rfl | hentry
  · exact Function.sized_compile hf
  · exact hl entry hentry

theorem le_foldl_max {α : Type} (size : α → Nat) (as : List α) (n : Nat) :
    n ≤ as.foldl (fun n a => max n (size a)) n ∧
      ∀ a ∈ as, size a ≤ as.foldl (fun n a => max n (size a)) n := by
  induction as generalizing n with
  | nil => exact ⟨Nat.le_refl n, fun _ ha => absurd ha List.not_mem_nil⟩
  | cons a as ih =>
    obtain ⟨hfirst, hrest⟩ := ih (max n (size a))
    refine ⟨Nat.le_trans (Nat.le_max_left ..) hfirst, List.forall_mem_cons.mpr ⟨?_, hrest⟩⟩
    exact Nat.le_trans (Nat.le_max_right ..) hfirst

theorem Library.le_longest {l : Library} {entry : String × Function standard} (h : entry ∈ l) :
    entry.2.size ≤ l.longest :=
  (le_foldl_max (fun entry => entry.2.size) l 0).2 entry h

/-- The bounds of a library of compiled functions. -/
theorem Library.Sized.within {l : Library} (hl : l.Sized) :
    l.Within ⟨l.longest, maxLineLength⟩ := by
  intro entry hentry
  exact (hl entry hentry).mono (le_longest hentry) (Nat.le_refl _)

end Trampoline
