import Trampoline.Proofs.Command.Stages

/-! The shape of the stages that a line resolves to.

Every way through the grammar ends in something that runs, and all it puts in front
of that are stages that redirect. The functions of the grammar call each other with
less and less fuel, so that is shown for all of them together, by induction on the
fuel (`shapes`). Hence a line that resolves has a chain (`parse_of_resolve`), and a
line is refused for no other reason than that it does not resolve. -/
namespace Trampoline

namespace Chain

variable {V : Vocabulary} {stages : List (Stage V)}

/-- Stages that can be walked to the end. -/
structure Complete (stages : List (Stage V)) : Prop where
  nonempty : stages ≠ []
  runs : (stages.getLast nonempty).executable.isSome
  redirects : ∀ stage ∈ stages.dropLast, stage.redirect.isSome

theorem wellShaped_iff : wellShaped stages ↔ Complete stages := by
  induction stages with
  | nil => exact ⟨fun h => (nomatch h), fun h => absurd rfl h.nonempty⟩
  | cons stage rest ih =>
    cases rest with
    | nil => exact ⟨fun h => ⟨List.cons_ne_nil _ _, h, fun _ hs => (nomatch hs)⟩, fun h => h.runs⟩
    | cons next rest =>
      rw [wellShaped, Bool.and_eq_true, ih]
      · constructor
        · rintro ⟨hredirects, hrest⟩
          exact ⟨List.cons_ne_nil _ _, hrest.runs, List.forall_mem_cons.mpr ⟨hredirects, hrest.redirects⟩⟩
        · intro h
          obtain ⟨hfirst, hrest⟩ := List.forall_mem_cons.mp h.redirects
          exact ⟨hfirst, List.cons_ne_nil _ _, h.runs, hrest⟩
      · exact fun h => nomatch h

/-- A stage that redirects can be put in front. -/
theorem wellShaped_cons {stage : Stage V} (hfirst : stage.redirect.isSome)
    (hrest : wellShaped stages) : wellShaped (stage :: stages) := by
  cases stages with
  | nil => cases hrest
  | cons next rest => exact Bool.and_eq_true_iff.mpr ⟨hfirst, hrest⟩

/-- Of more than one stage the first redirects, and the others are as well shaped. -/
theorem wellShaped_cons_cons {top stage : Stage V} {after : List (Stage V)}
    (h : wellShaped (top :: stage :: after)) :
    top.redirect.isSome ∧ wellShaped (stage :: after) := Bool.and_eq_true_iff.mp h

/-- From where the chain stands it can be walked to the end. -/
def Whole (chain : Chain V) : Prop := wellShaped (chain.top :: chain.after)

theorem flatten?_of_wellShaped (input : String) (h : wellShaped stages) :
    ∃ chain, flatten? input stages = some chain ∧ chain.stages = stages ∧ chain.before = [] := by
  cases stages with
  | nil => cases h
  | cons top after => exact ⟨⟨input, [], top, after⟩, if_pos h, rfl, rfl⟩

end Chain

namespace Command

variable {c : Cursor} {privileged : Bool} {n : Nat} {stages : List (Stage standard)}

/-- With `n` calls left, whatever the grammar finds can be walked to the end. -/
structure Shapes (privileged : Bool) (n : Nat) : Prop where
  command : ∀ c stages, readCommand privileged n c = .ok stages → Chain.wellShaped stages
  execute : ∀ c stages, readExecute privileged n c = .ok stages → Chain.wellShaped stages
  conditional : ∀ start condition c stages,
    readConditional privileged n start (condition, c) = .ok stages → Chain.wellShaped stages

theorem Shapes.readCommand_succ (hn : Shapes privileged n)
    (h : readCommand privileged (n + 1) c = .ok stages) : Chain.wellShaped stages := by
  rw [readCommand] at h
  obtain ⟨⟨w, c'⟩, -, h⟩ := ok_of_bind h
  simp only at h
  split at h
  · -- say
    split at h
    · cases h
    · cases h
      rfl
  · -- counter
    obtain ⟨verb, -, h⟩ := ok_of_bind h
    cases h
    rfl
  · -- fail
    cases h
    rfl
  · -- execute
    split at h
    · exact hn.execute c' stages h
    · cases h
  · -- return
    split at h
    · next c'' _ =>
      obtain ⟨rest, hrest, h⟩ := ok_of_bind h
      cases h
      exact Chain.wellShaped_cons rfl (hn.command c'' rest hrest)
    · obtain ⟨e, -, h⟩ := ok_of_bind h
      cases h
      rfl
  · -- function
    split at h
    · obtain ⟨e, -, h⟩ := ok_of_bind h
      cases h
      rfl
    · cases h
  · -- trigger
    split at h
    · obtain ⟨e, -, h⟩ := ok_of_bind h
      cases h
      rfl
    · cases h
  · cases h

theorem Shapes.readExecute_succ (hn : Shapes privileged n)
    (h : readExecute privileged (n + 1) c = .ok stages) : Chain.wellShaped stages := by
  rw [readExecute] at h
  obtain ⟨⟨w, c'⟩, -, h⟩ := ok_of_bind h
  simp only at h
  split at h
  · -- run
    exact hn.command c' stages h
  · -- as
    obtain ⟨⟨names, c''⟩, -, h⟩ := ok_of_bind h
    obtain ⟨rest, hrest, h⟩ := ok_of_bind h
    cases h
    exact Chain.wellShaped_cons rfl (hn.execute c'' rest hrest)
  · -- silent
    obtain ⟨rest, hrest, h⟩ := ok_of_bind h
    cases h
    exact Chain.wellShaped_cons rfl (hn.execute c' rest hrest)
  · -- if
    obtain ⟨⟨condition, c''⟩, -, h⟩ := ok_of_bind h
    exact hn.conditional c condition c'' stages h
  · -- unless
    obtain ⟨⟨condition, c''⟩, -, h⟩ := ok_of_bind h
    exact hn.conditional c condition c'' stages h
  · cases h

theorem Shapes.readConditional_succ (hn : Shapes privileged n) {start : Cursor}
    {condition : Condition}
    (h : readConditional privileged (n + 1) start (condition, c) = .ok stages) :
    Chain.wellShaped stages := by
  rw [readConditional] at h
  split at h
  · -- A condition at the end of the line is the command itself.
    cases h
    rfl
  · obtain ⟨rest, hrest, h⟩ := ok_of_bind h
    cases h
    exact Chain.wellShaped_cons rfl (hn.execute c rest hrest)

theorem shapes (privileged : Bool) (n : Nat) : Shapes privileged n := by
  induction n with
  | zero =>
    refine ⟨fun c stages h => ?_, fun c stages h => ?_, fun start condition c stages h => ?_⟩
    · rw [readCommand] at h
      cases h
    · rw [readExecute] at h
      cases h
    · rw [readConditional] at h
      cases h
  | succ n ih =>
    exact ⟨fun _ _ => ih.readCommand_succ, fun _ _ => ih.readExecute_succ,
      fun _ _ _ _ => ih.readConditional_succ⟩

theorem wellShaped_of_resolve {permission : Nat} {input : String}
    (h : resolve permission input = .ok stages) : Chain.wellShaped stages :=
  (shapes _ _).command _ _ h

/-- A line that resolves has a chain of just the stages it resolves to, on the first of them. -/
theorem parse_of_resolve {permission : Nat} {input : String}
    (h : resolve permission input = .ok stages) :
    ∃ chain, parse permission input = .ok chain ∧ chain.stages = stages ∧ chain.before = [] := by
  obtain ⟨chain, hflat, hchain⟩ := Chain.flatten?_of_wellShaped input
    (wellShaped_of_resolve h)
  refine ⟨chain, ?_, hchain⟩
  unfold parse Chain.parse
  rw [h]
  simp only [hflat]

/-- A line that does not resolve is refused with the reason it does not. -/
theorem parse_of_refused {permission : Nat} {input : String} {e : CommandError}
    (h : resolve permission input = .error e) : parse permission input = .error e := by
  unfold parse Chain.parse
  rw [h]

theorem whole_of_parse {permission : Nat} {input : String} {chain : Chain standard}
    (h : parse permission input = .ok chain) : chain.Whole := by
  cases hresolve : resolve permission input with
  | error e =>
    rw [parse_of_refused hresolve] at h
    cases h
  | ok stages =>
    have hshape := wellShaped_of_resolve hresolve
    obtain ⟨chain', hparse, rfl, hbefore⟩ := parse_of_resolve hresolve
    cases hparse.symm.trans h
    rw [Chain.stages, hbefore] at hshape
    exact hshape

end Command

end Trampoline
