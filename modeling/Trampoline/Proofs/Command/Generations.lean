import Trampoline.Probe
import Trampoline.Proofs.Command.Turn

/-! Generations of sources.

A walk over modifier stages is list bind under a limit. Each stage replaces every source
by what its modifier makes of it, in order (`generation`), and may make as many sources
as the limit allows. Once the chain has forked, a source whose modifier fails is lost and
complains unseen; before that, the first failure ends the walk. What one stage does is
found by cutting its sources where the stage ends, if it does (`spread_append`,
`through_or_cut`); how a walk over several stages goes is their `Course`, and the walk
does to the machine just what its course says (`descend_course`). -/
namespace Trampoline

/-- An error that a source meets. -/
structure Complaint where
  source : Source
  error : CommandError
  /-- The chain has forked, so the error is not shown. -/
  forked : Bool
  deriving DecidableEq, Repr

/-- Errors are met one after another. -/
def Journal.complain (j : Journal) (complaints : List Complaint) : Journal :=
  complaints.foldl (fun j c => j.handleError c.source c.error c.forked) j

theorem Journal.complain_append (j : Journal) (earlier later : List Complaint) :
    j.complain (earlier ++ later) = (j.complain earlier).complain later :=
  List.foldl_append

/-! ### One stage -/

section Stage

variable (modify : Source → Except CommandError (List Source)) (limit : Nat)

/-- What a modifier makes of a source; a failure makes nothing. -/
def yielded (source : Source) : List Source :=
  match modify source with
  | .ok made => made
  | .error _ => []

/-- What a source that is lost complains of. -/
def loss (source : Source) : Option Complaint :=
  match modify source with
  | .ok _ => none
  | .error e => some ⟨source, e, true⟩

/-- None of these sources ends the walk. -/
structure Through (forked : Bool) (sources : List Source) : Prop where
  tolerated : forked = true ∨ ∀ s ∈ sources, ∃ made, modify s = .ok made
  fits : (sources.flatMap (yielded modify)).length ≤ limit

/-- The first source after `before` makes more than there is room for. -/
structure Overflow (forked : Bool) (sources before : List Source) : Prop where
  through : Through modify limit forked before
  next : ∃ s after made, sources = before ++ s :: after ∧ modify s = .ok made ∧
    limit < (before.flatMap (yielded modify)).length + made.length

variable {modify limit} {forked : Bool} {sources before : List Source}

theorem yielded_of_ok {s : Source} {made : List Source} (h : modify s = .ok made) :
    yielded modify s = made := by
  simp [yielded, h]

theorem yielded_of_error {s : Source} {e : CommandError} (h : modify s = .error e) :
    yielded modify s = [] := by
  simp [yielded, h]

theorem loss_of_ok {s : Source} {made : List Source} (h : modify s = .ok made) :
    loss modify s = none := by
  simp [loss, h]

theorem loss_of_error {s : Source} {e : CommandError} (h : modify s = .error e) :
    loss modify s = some ⟨s, e, true⟩ := by
  simp [loss, h]

theorem through_nil : Through modify limit forked [] :=
  ⟨.inr (fun _ h => nomatch h), Nat.zero_le limit⟩

/-- In a chain that has not forked, nothing is lost where the walk goes on. -/
theorem Through.losses_eq_nil (h : Through modify limit false sources) :
    sources.filterMap (loss modify) = [] := by
  obtain hforked | hok := h.tolerated
  · cases hforked
  · rw [List.filterMap_eq_nil_iff]
    intro s hs
    obtain ⟨made, hmade⟩ := hok s hs
    exact loss_of_ok hmade

/-- Sources that do not end the walk leave their yield and their complaints. -/
theorem spread_append (flags : Flags) (starter : Source) (rest made : List Source) (count : Nat)
    (j : Journal)
    (htolerated : flags.forked = true ∨ ∀ s ∈ before, ∃ made, modify s = .ok made)
    (hfits : count + (before.flatMap (yielded modify)).length ≤ limit) :
    spread modify limit flags starter (before ++ rest) made count j =
      spread modify limit flags starter rest ((before.flatMap (yielded modify)).reverse ++ made)
        (count + (before.flatMap (yielded modify)).length)
        (j.complain (before.filterMap (loss modify))) := by
  induction before generalizing made count j with
  | nil => rfl
  | cons s before ih =>
    rw [List.flatMap_cons, List.length_append] at hfits
    rw [List.cons_append, spread, List.flatMap_cons, List.filterMap_cons]
    have htail : flags.forked = true ∨ ∀ s ∈ before, ∃ made, modify s = .ok made :=
      htolerated.imp_right fun h s hs => h s (.tail _ hs)
    cases hs : modify s with
    | ok produced =>
      rw [yielded_of_ok hs] at hfits ⊢
      rw [loss_of_ok hs]
      have hroom : ¬ limit < count + produced.length := by omega
      dsimp only
      rw [if_neg hroom, ih _ _ _ htail (by omega), List.reverseAux_eq, List.length_append,
        List.reverse_append, List.append_assoc, Nat.add_assoc]
    | error e =>
      rw [yielded_of_error hs] at hfits ⊢
      rw [loss_of_error hs]
      have hforked : flags.forked = true := by
        obtain h | h := htolerated
        · exact h
        · obtain ⟨made, hmade⟩ := h s (.head _)
          cases hs.symm.trans hmade
      dsimp only
      rw [if_pos hforked, hforked]
      exact ih _ _ _ htail (by simpa using hfits)

variable {flags : Flags} {starter : Source} {j : Journal}

theorem spread_through (h : Through modify limit flags.forked sources) :
    spread modify limit flags starter sources [] 0 j =
      (.onward (sources.flatMap (yielded modify)), j.complain (sources.filterMap (loss modify))) := by
  have hspread := spread_append flags starter [] [] 0 j h.tolerated (by simpa using h.fits)
  rw [List.append_nil] at hspread
  simpa [spread] using hspread

theorem spread_failed {s : Source} {after : List Source} {e : CommandError}
    (hforked : flags.forked = false) (hbefore : Through modify limit false before)
    (hs : modify s = .error e) :
    spread modify limit flags starter (before ++ s :: after) [] 0 j =
      (.stopped, j.handleError s e false) := by
  rw [← hforked] at hbefore
  rw [spread_append flags starter _ [] 0 j hbefore.tolerated (by simpa using hbefore.fits)]
  rw [hforked] at hbefore
  simp only [spread, hs, hforked, hbefore.losses_eq_nil]
  rfl

theorem spread_overflow (h : Overflow modify limit flags.forked sources before) :
    spread modify limit flags starter sources [] 0 j =
      (.stopped, (j.complain (before.filterMap (loss modify))).handleError starter
        (.forkLimit limit) false) := by
  obtain ⟨hbefore, s, after, made, rfl, hs, hmade⟩ := h
  rw [spread_append flags starter _ [] 0 j hbefore.tolerated (by simpa using hbefore.fits)]
  simp only [spread, hs, Nat.zero_add]
  rw [if_pos hmade]

/-- Either no source ends the walk, or there is a first that does. -/
theorem through_or_cut (modify : Source → Except CommandError (List Source)) (limit : Nat)
    (forked : Bool) (sources : List Source) :
    Through modify limit forked sources ∨
      (forked = false ∧ ∃ before s after e, sources = before ++ s :: after ∧
        Through modify limit false before ∧ modify s = .error e) ∨
      ∃ before, Overflow modify limit forked sources before := by
  suffices h : ∀ rest before, Through modify limit forked before → before ++ rest = sources →
      Through modify limit forked sources ∨
        (forked = false ∧ ∃ before s after e, sources = before ++ s :: after ∧
          Through modify limit false before ∧ modify s = .error e) ∨
        ∃ before, Overflow modify limit forked sources before from
    h sources [] through_nil rfl
  -- the sources seen so far have come through
  intro rest
  induction rest with
  | nil =>
    intro before hbefore heq
    rw [List.append_nil] at heq
    exact .inl (heq ▸ hbefore)
  | cons s rest ih =>
    intro before hbefore heq
    cases hs : modify s with
    | ok made =>
      by_cases hroom : (before.flatMap (yielded modify)).length + made.length ≤ limit
      · refine ih (before ++ [s]) ⟨?_, ?_⟩ (by rw [← heq, List.append_assoc]; rfl)
        · refine hbefore.tolerated.imp_right fun hok t ht => ?_
          obtain ht | ht := List.mem_append.mp ht
          · exact hok t ht
          · rw [List.mem_singleton.mp ht]
            exact ⟨made, hs⟩
        · simpa [List.flatMap_append, yielded_of_ok hs] using hroom
      · exact .inr (.inr ⟨before, hbefore, s, rest, made, heq.symm, hs, by omega⟩)
    | error e =>
      cases hforked : forked with
      | false =>
        rw [hforked] at hbefore
        exact .inr (.inl ⟨rfl, before, s, rest, e, heq.symm, hbefore, hs⟩)
      | true =>
        rw [hforked] at hbefore ih
        refine ih (before ++ [s]) ⟨.inl rfl, ?_⟩ (by rw [← heq, List.append_assoc]; rfl)
        simpa [List.flatMap_append, yielded_of_error hs] using hbefore.fits

/-- In a forked chain only the total counts. -/
theorem overflow_iff : (∃ before, Overflow modify limit true sources before) ↔
    limit < (sources.flatMap (yielded modify)).length := by
  constructor
  · rintro ⟨before, -, s, after, made, rfl, hs, hmade⟩
    simp only [List.flatMap_append, List.flatMap_cons, List.length_append, yielded_of_ok hs]
    omega
  · intro htotal
    obtain hthrough | ⟨hforked, -⟩ | hoverflow := through_or_cut modify limit true sources
    · exact absurd hthrough.fits (by omega)
    · cases hforked
    · exact hoverflow

end Stage

/-! ### Several stages -/

namespace Dialect

variable {V : Vocabulary} {η : Type} (D : Dialect V η) (host : η)

/-- What the modifier of a stage makes of a source. -/
def modifyAt (stage : Stage V) : Source → Except CommandError (List Source) :=
  match stage.redirect with
  | some (.modifier modifier) => D.modify modifier host
  | _ => fun source => .ok [source]

/-- The sources after some stages. -/
def generation (stages : List (Stage V)) (sources : List Source) : List Source :=
  stages.foldl (fun sources stage => sources.flatMap (yielded (D.modifyAt host stage))) sources

/-- What the sources that are lost on the way complain of. -/
def losses : List (Stage V) → List Source → List Complaint
  | [], _ => []
  | stage :: rest, sources =>
    sources.filterMap (loss (D.modifyAt host stage)) ++
      losses rest (sources.flatMap (yielded (D.modifyAt host stage)))

/-- Every stage is entered, and none of them ends the walk. -/
def Passed (limit : Nat) : (forked : Bool) → List (Stage V) → List Source → Prop
  | _, [], _ => True
  | forked, stage :: rest, sources =>
    Through (D.modifyAt host stage) limit (forked || stage.forks) sources ∧
      (rest = [] ∨ sources.flatMap (yielded (D.modifyAt host stage)) ≠ []) ∧
      Passed limit (forked || stage.forks) rest
        (sources.flatMap (yielded (D.modifyAt host stage)))

/-- How a walk over modifier stages goes: the stages it enters, the complaints it hears, and the
sources that arrive at the stage behind them, if it gets there. -/
inductive Course (limit : Nat) (starter : Source) (forked : Bool) (sources : List Source)
    (links : List (Stage V)) : Nat → List Complaint → Option (List Source) → Prop where
  /-- No stage ended the walk; stages that would have had no sources were not entered. -/
  | arrives {passed rest : List (Stage V)} (hlinks : links = passed ++ rest)
      (hpassed : Passed D host limit forked passed sources)
      (hrest : rest = [] ∨ passed ≠ [] ∧ D.generation host passed sources = []) :
      Course limit starter forked sources links passed.length (D.losses host links sources)
        (some (D.generation host links sources))
  /-- The chain had not forked, and this was the first failure. -/
  | fails {passed rest : List (Stage V)} {stage : Stage V} {before after : List Source}
      {source : Source} {e : CommandError} (hlinks : links = passed ++ stage :: rest)
      (hpassed : Passed D host limit forked passed sources)
      (hforked : (forked || (passed ++ [stage]).any (·.forks)) = false)
      (hsources : D.generation host passed sources = before ++ source :: after)
      (hbefore : Through (D.modifyAt host stage) limit false before)
      (herror : D.modifyAt host stage source = .error e) :
      Course limit starter forked sources links (passed.length + 1) [⟨source, e, false⟩] none
  /-- A stage made more sources than the limit. -/
  | overflows {passed rest : List (Stage V)} {stage : Stage V} {before : List Source}
      (hlinks : links = passed ++ stage :: rest)
      (hpassed : Passed D host limit forked passed sources)
      (hoverflow : Overflow (D.modifyAt host stage) limit
        (forked || (passed ++ [stage]).any (·.forks)) (D.generation host passed sources) before) :
      Course limit starter forked sources links (passed.length + 1)
        (D.losses host passed sources ++ before.filterMap (loss (D.modifyAt host stage)) ++
          [⟨starter, .forkLimit limit, false⟩]) none

variable {D host} {limit : Nat} {starter : Source} {forked : Bool} {sources : List Source}
  {links : List (Stage V)} {entered : Nat} {complaints : List Complaint}
  {arrived : Option (List Source)}

theorem modifyAt_of_redirect {stage : Stage V} {modifier : V.Modifier}
    (h : stage.redirect = some (.modifier modifier)) :
    D.modifyAt host stage = D.modify modifier host := by
  simp [modifyAt, h]

theorem generation_nil (stages : List (Stage V)) : D.generation host stages [] = [] := by
  induction stages with
  | nil => rfl
  | cons stage rest ih => exact ih

theorem losses_nil (stages : List (Stage V)) : D.losses host stages [] = [] := by
  induction stages with
  | nil => rfl
  | cons stage rest ih => exact ih

theorem generation_append (earlier later : List (Stage V)) :
    D.generation host (earlier ++ later) sources =
      D.generation host later (D.generation host earlier sources) :=
  List.foldl_append

/-- Three copies, of which the second is dropped, and two copies of each of the others. -/
example :
    let stage (modifier : Probe.Modifier) : Stage Probe.vocabulary :=
      { input := "", redirect := some (.modifier modifier) }
    (Probe.dialect.generation () [stage (.copy 3), stage (.drop (some "console.1")), stage (.copy 2)]
      [.console]).map (·.name) = ["console.0.0", "console.0.1", "console.2.0", "console.2.1"] := rfl

/-- A stage that does not end the walk goes in front of the course of the others. -/
theorem Course.cons {stage : Stage V}
    (hthrough : Through (D.modifyAt host stage) limit (forked || stage.forks) sources)
    (hsome : sources.flatMap (yielded (D.modifyAt host stage)) ≠ [])
    (h : Course D host limit starter (forked || stage.forks)
      (sources.flatMap (yielded (D.modifyAt host stage))) links entered complaints arrived) :
    Course D host limit starter forked sources (stage :: links) (entered + 1)
      (sources.filterMap (loss (D.modifyAt host stage)) ++ complaints) arrived := by
  cases h with
  | @arrives passed rest hlinks hpassed hrest =>
    have hsplit : stage :: links = (stage :: passed) ++ rest := congrArg (stage :: ·) hlinks
    exact .arrives hsplit ⟨hthrough, .inr hsome, hpassed⟩
      (hrest.imp_right fun h => ⟨List.cons_ne_nil _ _, h.2⟩)
  | @fails passed rest last before after source e hlinks hpassed hforked hsources hbefore herror =>
    rw [Bool.or_assoc] at hforked
    have hunforked : (forked || stage.forks) = false := by
      revert hforked
      cases forked <;> cases stage.forks <;> simp
    rw [hunforked] at hthrough
    rw [hthrough.losses_eq_nil, List.nil_append]
    have hsplit : stage :: links = (stage :: passed) ++ last :: rest :=
      congrArg (stage :: ·) hlinks
    exact .fails hsplit ⟨hunforked ▸ hthrough, .inr hsome, hpassed⟩ hforked hsources
      hbefore herror
  | @overflows passed rest last before hlinks hpassed hoverflow =>
    rw [Bool.or_assoc] at hoverflow
    rw [← List.append_assoc, ← List.append_assoc]
    have hsplit : stage :: links = (stage :: passed) ++ last :: rest :=
      congrArg (stage :: ·) hlinks
    exact .overflows hsplit ⟨hthrough, .inr hsome, hpassed⟩ hoverflow

/-- However far the walk has come, the sources are within the limit. -/
theorem Passed.length_generation_le {passed done : List (Stage V)}
    (h : Passed D host limit forked passed sources) (hdone : done <+: passed) (hsome : done ≠ []) :
    (D.generation host done sources).length ≤ limit := by
  induction passed generalizing done forked sources with
  | nil => exact absurd (List.prefix_nil.mp hdone) hsome
  | cons stage rest ih =>
    obtain ⟨hthrough, -, hrest⟩ := h
    obtain rfl | ⟨shorter, rfl, hshorter⟩ := List.prefix_cons_iff.mp hdone
    · exact absurd rfl hsome
    · cases shorter with
      | nil => exact hthrough.fits
      | cons next shorter =>
        have hrest := ih hrest hshorter (List.cons_ne_nil _ _)
        exact hrest

/-- Every generation that a later stage is entered with, or that arrives, is within the limit. -/
theorem Course.length_generation_le {done : List (Stage V)}
    (h : Course D host limit starter forked sources links entered complaints arrived)
    (hdone : done <+: links) (hsome : done ≠ [])
    (hreached : done.length < entered ∨ arrived.isSome = true) :
    (D.generation host done sources).length ≤ limit := by
  cases h with
  | @arrives passed rest hlinks hpassed hrest =>
    subst hlinks
    obtain hshort | hlong := List.prefix_or_prefix_of_prefix hdone (List.prefix_append passed rest)
    · exact hpassed.length_generation_le hshort hsome
    · obtain rfl | ⟨hne, hempty⟩ := hrest
      · rw [List.append_nil] at hdone
        exact hpassed.length_generation_le hdone hsome
      · obtain ⟨more, rfl⟩ := hlong
        rw [generation_append, hempty, generation_nil]
        exact Nat.zero_le limit
  | @fails passed rest stage before after source e hlinks hpassed =>
    have hlength : done.length ≤ passed.length := by simpa [Nat.lt_succ_iff] using hreached
    subst hlinks
    have hshort := List.prefix_of_prefix_length_le hdone (List.prefix_append passed _) hlength
    exact hpassed.length_generation_le hshort hsome
  | @overflows passed rest stage before hlinks hpassed =>
    have hlength : done.length ≤ passed.length := by simpa [Nat.lt_succ_iff] using hreached
    subst hlinks
    have hshort := List.prefix_of_prefix_length_le hdone (List.prefix_append passed _) hlength
    exact hpassed.length_generation_le hshort hsome

/-- In a forked chain, the walk ends at a stage it enters if and only if the sources of that stage
make more than the limit, whichever of them fail. -/
theorem Course.overflow_iff {passed rest : List (Stage V)} {stage : Stage V}
    (h : Course D host limit starter forked sources links entered complaints arrived)
    (hlinks : links = passed ++ stage :: rest) (hentered : passed.length < entered)
    (hforked : (forked || (passed ++ [stage]).any (·.forks)) = true) :
    entered = passed.length + 1 ∧ arrived = none ↔
      limit < (D.generation host (passed ++ [stage]) sources).length := by
  constructor
  · rintro ⟨hlast, hnone⟩
    cases h with
    | arrives => cases hnone
    | @fails passed' rest' stage' before after source e hlinks' _ hforked' =>
      obtain ⟨rfl, hstage⟩ := List.append_inj (hlinks.symm.trans hlinks') (by omega)
      cases hstage
      rw [hforked'] at hforked
      cases hforked
    | @overflows passed' rest' stage' before hlinks' _ hoverflow =>
      obtain ⟨rfl, hstage⟩ := List.append_inj (hlinks.symm.trans hlinks') (by omega)
      cases hstage
      rw [hforked] at hoverflow
      rw [generation_append]
      exact Trampoline.overflow_iff.mp ⟨before, hoverflow⟩
  · intro hover
    have hdone : passed ++ [stage] <+: links := ⟨rest, by simp [hlinks]⟩
    have hlength : (passed ++ [stage]).length = passed.length + 1 := by simp
    have hfar : ¬ ((passed ++ [stage]).length < entered ∨ arrived.isSome = true) := fun hreached =>
      absurd (h.length_generation_le hdone (by simp) hreached) (by omega)
    rw [not_or, hlength, Bool.not_eq_true, Option.isSome_eq_false_iff, Option.isNone_iff_eq_none]
      at hfar
    exact ⟨by omega, hfar.2⟩

/-! ### The walk -/

variable {m : Machine (Scene η) (Task (Action V))} {frame : Frame} {flags : Flags}

theorem exec_redirectAll (modifier : V.Modifier) (hroom : m.cost < m.limits.commands) :
    (D.redirectAll modifier starter sources flags).exec m =
      let made := spread (D.modify modifier m.world.host) m.limits.forks flags starter sources [] 0
        m.world.journal
      (.ok made.1, { m with cost := m.cost + 1, world := { m.world with journal := made.2 } }) := by
  have hpay := Work.exec_pay m
  rw [if_pos hroom] at hpay
  rw [redirectAll, Work.exec_bind, hpay]
  rfl

/-- Without sources, it does not matter where the walk ends. -/
theorem finish_nil (chain chain' : Chain V) {flags' : Flags}
    (h : flags'.returning = flags.returning) :
    D.finish frame chain [] flags = D.finish frame chain' [] flags' := by
  simp [finish, h]

/-- The end of a walk: whoever arrives is handed to the last stage. -/
def land (D : Dialect V η) (frame : Frame) (last : Chain V) (flags : Flags)
    (m : Machine (Scene η) (Task (Action V))) :
    Option (List Source) → Except Fault Unit × Machine (Scene η) (Task (Action V))
  | none => (.ok (), m)
  | some sources => (D.finish frame last sources flags).exec m

/-- The machine after a walk that entered so many stages and heard these complaints. -/
def walked (m : Machine (Scene η) (Task (Action V))) (entered : Nat) (complaints : List Complaint) :
    Machine (Scene η) (Task (Action V)) :=
  { m with cost := m.cost + entered, world := m.world.write (·.complain complaints) }

theorem walked_walked (m : Machine (Scene η) (Task (Action V))) (entered : Nat)
    (earlier later : List Complaint) :
    walked (walked m 1 earlier) entered later = walked m (entered + 1) (earlier ++ later) := by
  simp only [walked, Scene.write, Journal.complain_append, Nat.add_assoc, Nat.add_comm 1]

/-- What one stage does to the machine. -/
theorem exec_stage {input : String} {before after : List (Stage V)} {top next : Stage V}
    (hlink : ∃ modifier, top.redirect = some (.modifier modifier))
    (hroom : m.cost < m.limits.commands) :
    (D.descend frame starter input before top (next :: after) sources flags).exec m =
      let flags := { flags with forked := flags.forked || top.forks }
      let made := spread (D.modifyAt m.world.host top) m.limits.forks flags starter sources [] 0
        m.world.journal
      let m := { m with cost := m.cost + 1, world := { m.world with journal := made.2 } }
      match made.1 with
      | .stopped => (.ok (), m)
      | .onward [] => (D.finish frame ⟨input, top :: before, next, after⟩ [] flags).exec m
      | .onward sources =>
        (D.descend frame starter input (top :: before) next after sources flags).exec m := by
  obtain ⟨modifier, hmodifier⟩ := hlink
  have hflags : (if top.forks then { flags with forked := true } else flags) =
      { flags with forked := flags.forked || top.forks } := by
    cases top.forks <;> simp
  rw [descend, hflags, modifyAt_of_redirect hmodifier]
  simp only [hmodifier]
  refine (Work.exec_bind _ _ _).trans ?_
  rw [exec_redirectAll modifier hroom]
  dsimp only
  generalize spread (D.modify modifier m.world.host) m.limits.forks
    { flags with forked := flags.forked || top.forks } starter sources [] 0 m.world.journal = made
  obtain ⟨result, journal⟩ := made
  cases result with
  | stopped => rfl
  | onward made =>
    cases made with
    | nil => rfl
    | cons first others => rfl

/-- The walk enters the stages of its course, hears the complaints and lands with what arrives. -/
theorem exec_descend {input : String} {before after : List (Stage V)} {top last : Stage V}
    (hstages : top :: after = links ++ [last])
    (hlinks : ∀ stage ∈ links, ∃ modifier, stage.redirect = some (.modifier modifier))
    (hbudget : m.cost + links.length ≤ m.limits.commands) :
    ∃ entered complaints arrived,
      Course D m.world.host m.limits.forks starter flags.forked sources links entered complaints
        arrived ∧
      (D.descend frame starter input before top after sources flags).exec m =
        land D frame ⟨input, links.reverse ++ before, last, []⟩
          { flags with forked := flags.forked || links.any (·.forks) }
          (walked m entered complaints) arrived := by
  induction links generalizing before top after sources flags m with
  | nil =>
    cases hstages
    have hsplit : ([] : List (Stage V)) = [] ++ [] := rfl
    refine ⟨_, _, _, .arrives hsplit trivial (.inl rfl), ?_⟩
    simp only [List.any_nil, Bool.or_false]
    rfl
  | cons stage links ih =>
    rw [List.cons_append, List.cons.injEq] at hstages
    obtain ⟨rfl, rfl⟩ := hstages
    rw [List.length_cons] at hbudget
    obtain ⟨next, rest, hrest⟩ : ∃ next rest, links ++ [last] = next :: rest :=
      List.exists_cons_of_ne_nil (by simp)
    have hroom : m.cost < m.limits.commands := by omega
    rw [hrest, exec_stage (hlinks top (.head _)) hroom]
    dsimp only
    -- the stages before this one: none
    have hsplit : top :: links = [] ++ top :: links := rfl
    obtain hthrough | ⟨hforked, cut, source, later, e, hcut, hbefore, he⟩ | ⟨cut, hoverflow⟩ :=
      through_or_cut (D.modifyAt m.world.host top) m.limits.forks (flags.forked || top.forks) sources
    · rw [spread_through hthrough]
      dsimp only
      cases hmade : sources.flatMap (yielded (D.modifyAt m.world.host top)) with
      | nil =>
        have hsplit : top :: links = [top] ++ links := rfl
        have hcourse : Course D m.world.host m.limits.forks starter flags.forked sources
            (top :: links) _ _ _ :=
          .arrives hsplit ⟨hthrough, .inl rfl, trivial⟩ (.inr ⟨List.cons_ne_nil _ _, hmade⟩)
        refine ⟨_, _, _, hcourse, ?_⟩
        have hgeneration : D.generation m.world.host (top :: links) sources = [] := by
          rw [← List.singleton_append, generation_append]
          exact (congrArg _ hmade).trans (generation_nil links)
        rw [hgeneration, losses, hmade, losses_nil, List.append_nil]
        exact congrArg (Work.exec · _) (finish_nil _ _ rfl)
      | cons first others =>
        obtain ⟨entered, complaints, arrived, hcourse, hexec⟩ := @ih (first :: others)
          (walked m 1 (sources.filterMap (loss (D.modifyAt m.world.host top))))
          { flags with forked := flags.forked || top.forks } (top :: before) rest next hrest.symm
          (fun stage hstage => hlinks stage (.tail _ hstage))
          (by simp only [walked]; omega)
        have hne : sources.flatMap (yielded (D.modifyAt m.world.host top)) ≠ [] := by simp [hmade]
        refine ⟨_, _, _, .cons hthrough hne (hmade ▸ hcourse), ?_⟩
        rw [← walked_walked, List.any_cons, ← Bool.or_assoc, List.reverse_cons, List.append_assoc]
        exact hexec
    · subst hcut
      rw [spread_failed hforked hbefore he]
      exact ⟨_, _, _, .fails hsplit trivial (by simpa using hforked) rfl hbefore he, rfl⟩
    · rw [spread_overflow hoverflow]
      have hcourse : Course D m.world.host m.limits.forks starter flags.forked sources
          (top :: links) _ _ _ :=
        .overflows hsplit trivial (by simpa [generation] using hoverflow)
      refine ⟨_, _, _, hcourse, ?_⟩
      simp only [losses, List.nil_append, List.length_nil, land, walked, Scene.write,
        Journal.complain_append]
      rfl

/-- **A walk is list bind under a limit.** Over modifier stages, with enough budget, it goes its
course: it pays one unit for each stage it enters, its sources hear what the course says, and those
that arrive are handed to the last stage; where the course ends before, nothing is queued. The
sources within a walk never exceed the limit, and in a forked chain it ends at a stage just when
that stage would make more. -/
theorem descend_course (D : Dialect V η) (frame : Frame) (chain : Chain V) (starter : Source)
    (sources : List Source) (flags : Flags) (m : Machine (Scene η) (Task (Action V)))
    {links : List (Stage V)} {last : Stage V} (hstages : chain.top :: chain.after = links ++ [last])
    (hlinks : ∀ stage ∈ links, ∃ modifier, stage.redirect = some (.modifier modifier))
    (hbudget : m.cost + links.length ≤ m.limits.commands) :
    ∃ entered complaints arrived,
      Course D m.world.host m.limits.forks starter flags.forked sources links entered complaints
        arrived ∧
      (∀ done, done <+: links → done ≠ [] → done.length < entered ∨ arrived.isSome = true →
        (D.generation m.world.host done sources).length ≤ m.limits.forks) ∧
      (∀ passed stage rest, links = passed ++ stage :: rest → passed.length < entered →
        (flags.forked || (passed ++ [stage]).any (·.forks)) = true →
        (entered = passed.length + 1 ∧ arrived = none ↔
          m.limits.forks < (D.generation m.world.host (passed ++ [stage]) sources).length)) ∧
      (D.descend frame starter chain.input chain.before chain.top chain.after sources flags).exec m =
        land D frame ⟨chain.input, links.reverse ++ chain.before, last, []⟩
          { flags with forked := flags.forked || links.any (·.forks) }
          (walked m entered complaints) arrived := by
  obtain ⟨entered, complaints, arrived, hcourse, hexec⟩ := exec_descend hstages hlinks hbudget
  refine ⟨entered, complaints, arrived, hcourse, fun done hdone hsome hreached => ?_,
    fun passed stage rest hsplit hentered hforked => ?_, hexec⟩
  · exact hcourse.length_generation_le hdone hsome hreached
  · exact hcourse.overflow_iff hsplit hentered hforked

/-- The stage that makes two sources of one. -/
def doubling : Stage Command.standard where
  input := "execute as a,b"
  redirect := some (.modifier (.rename ["a", "b"]))
  forks := true

def greeting : Stage Command.standard where
  input := "say hi"
  executable := some (.command (.say "hi"))

/-- Where the limit is one source. -/
def narrow : Command.Rig := { limits := { forks := 1 }, world := ⟨{}, {}⟩ }

theorem doubling_course :
    ∃ entered complaints arrived,
      Course Command.dialect narrow.world.host 1 .console false [.console] [doubling] entered
        complaints arrived ∧
      (Command.dialect.descend ⟨0, .empty, 0⟩ .console "execute as a,b run say hi" [] doubling
          [greeting] [.console] {}).exec narrow =
        land Command.dialect ⟨0, .empty, 0⟩ ⟨"execute as a,b run say hi", [doubling], greeting, []⟩
          { forked := true } (walked narrow entered complaints) arrived := by
  have hlinks : ∀ stage ∈ [doubling], ∃ modifier, stage.redirect = some (.modifier modifier) := by
    intro stage hstage
    rw [List.mem_singleton.mp hstage]
    exact ⟨_, rfl⟩
  have hstages : doubling :: [greeting] = [doubling] ++ [greeting] := rfl
  obtain ⟨entered, complaints, arrived, hcourse, -, -, hexec⟩ :=
    descend_course Command.dialect ⟨0, .empty, 0⟩
      ⟨"execute as a,b run say hi", [], doubling, [greeting]⟩ .console [.console] {} narrow hstages
      hlinks (by decide)
  exact ⟨entered, complaints, arrived, hcourse, hexec⟩

end Dialect

end Trampoline
