import Trampoline.Dialect

/-! Journals only grow.

What was shown, heard and traced is read off a journal in the order in which it
happened. One journal is before another if all three are beginnings of the
other's; sections of the profiler do not count. Every entry made in a journal
leaves the old one before the new one (`before_add`, `before_display` and the
lemmas after them). -/
namespace Trampoline.Journal

/-- The lines shown. -/
def shown (j : Journal) : List OutputLine := j.output.reverse

/-- The outcomes heard, each with who heard it. -/
def heard (j : Journal) : List (String × Outcome) :=
  j.happenings.reverse.filterMap fun
    | .heard listener outcome => some (listener, outcome)
    | _ => none

/-- The events traced. -/
def events (j : Journal) : List Trace.Event :=
  j.happenings.reverse.filterMap fun
    | .traced event => some event
    | _ => none

structure Before (j j' : Journal) : Prop where
  shown : j.shown <+: j'.shown
  heard : j.heard <+: j'.heard
  events : j.events <+: j'.events

variable {j j' j'' : Journal}

theorem Before.refl (j : Journal) : j.Before j := ⟨List.prefix_rfl, List.prefix_rfl, List.prefix_rfl⟩

theorem Before.trans (h : j.Before j') (h' : j'.Before j'') : j.Before j'' :=
  ⟨h.shown.trans h'.shown, h.heard.trans h'.heard, h.events.trans h'.events⟩

theorem before_add (j : Journal) (happening : Happening) : j.Before (j.add happening) := by
  refine ⟨List.prefix_rfl, ?_, ?_⟩
  · simp [heard, add]
  · simp [events, add]

theorem before_display (j : Journal) (line : OutputLine) : j.Before (j.display line) := by
  refine ⟨?_, List.prefix_rfl, List.prefix_rfl⟩
  simp [shown, display]

theorem before_trace (j : Journal) (event : Trace.Event) : j.Before (j.trace event) := by
  unfold trace
  split
  · exact before_add j _
  · exact .refl j

theorem before_openSection (j : Journal) (activity : Activity) :
    j.Before (j.openSection activity) := by
  unfold openSection
  split
  · exact before_add j _
  · exact .refl j

theorem before_closeSection (j : Journal) : j.Before j.closeSection := by
  unfold closeSection
  split
  · exact before_add j _
  · exact .refl j

/-- The end of a section shows nowhere. -/
theorem Before.closeSection (h : j.Before j') : j.closeSection.Before j' := by
  unfold Journal.closeSection
  split
  · refine ⟨h.shown, ?_, ?_⟩
    · simpa [Journal.heard, add] using h.heard
    · simpa [Journal.events, add] using h.events
  · exact h

theorem before_handleError (j : Journal) (source : Source) (e : CommandError) (forked : Bool) :
    j.Before (j.handleError source e forked) := by
  have htrace : j.Before (if j.traced then j.trace (.error e.describe) else j) := by
    split
    · exact before_trace j _
    · exact .refl j
  unfold handleError
  dsimp only
  split
  · exact htrace
  · exact htrace.trans (before_display ..)

/-! ### Hearing -/

theorem shown_hear (j : Journal) (callback : Callback) (outcome : Outcome) :
    (j.hear callback outcome).shown = j.shown := by
  unfold hear
  induction callback.listeners generalizing j with
  | nil => rfl
  | cons listener rest ih => exact ih (j.add _)

theorem events_hear (j : Journal) (callback : Callback) (outcome : Outcome) :
    (j.hear callback outcome).events = j.events := by
  unfold hear
  induction callback.listeners generalizing j with
  | nil => rfl
  | cons listener rest ih =>
    have hadd : (j.add (.heard listener outcome)).events = j.events := by simp [events, add]
    rw [List.foldl_cons, ih, hadd]

/-- Every listener hears the outcome once, in order. -/
theorem heard_hear (j : Journal) (callback : Callback) (outcome : Outcome) :
    (j.hear callback outcome).heard = j.heard ++ callback.listeners.map (·, outcome) := by
  unfold hear
  induction callback.listeners generalizing j with
  | nil => exact (List.append_nil _).symm
  | cons listener rest ih =>
    have hadd : (j.add (.heard listener outcome)).heard = j.heard ++ [(listener, outcome)] := by
      simp [heard, add]
    rw [List.foldl_cons, ih, hadd, List.map_cons, List.append_assoc, List.singleton_append]

/-! What is no outcome is not heard. -/

theorem heard_trace (j : Journal) (event : Trace.Event) : (j.trace event).heard = j.heard := by
  unfold trace
  split
  · simp [heard, add]
  · rfl

theorem heard_openSection (j : Journal) (activity : Activity) :
    (j.openSection activity).heard = j.heard := by
  unfold openSection
  split
  · simp [heard, add]
  · rfl

theorem heard_closeSection (j : Journal) : j.closeSection.heard = j.heard := by
  unfold closeSection
  split
  · simp [heard, add]
  · rfl

theorem heard_handleError (j : Journal) (source : Source) (e : CommandError) (forked : Bool) :
    (j.handleError source e forked).heard = j.heard := by
  have htrace : (if j.traced then j.trace (.error e.describe) else j).heard = j.heard := by
    split
    · exact heard_trace j _
    · rfl
  unfold handleError
  dsimp only
  split
  · exact htrace
  · exact htrace

theorem heard_spread (modify : Source → Except CommandError (List Source)) (limit : Nat)
    (flags : Flags) (starter : Source) (sources made : List Source) (count : Nat) (j : Journal) :
    (spread modify limit flags starter sources made count j).2.heard = j.heard := by
  induction sources generalizing made count j with
  | nil => rfl
  | cons source rest ih =>
    rw [spread]
    split
    · split
      · exact heard_handleError ..
      · exact ih ..
    · dsimp only
      split
      · exact (ih ..).trans (heard_handleError ..)
      · exact heard_handleError ..

theorem before_hear (j : Journal) (callback : Callback) (outcome : Outcome) :
    j.Before (j.hear callback outcome) := by
  refine ⟨?_, ?_, ?_⟩
  · simp [shown_hear]
  · rw [heard_hear]
    exact List.prefix_append ..
  · simp [events_hear]

theorem before_spread (modify : Source → Except CommandError (List Source)) (limit : Nat)
    (flags : Flags) (starter : Source) (sources made : List Source) (count : Nat) (j : Journal) :
    j.Before (spread modify limit flags starter sources made count j).2 := by
  induction sources generalizing made count j with
  | nil => exact .refl j
  | cons source rest ih =>
    rw [spread]
    split
    · split
      · exact before_handleError ..
      · exact ih ..
    · dsimp only
      split
      · exact (before_handleError ..).trans (ih ..)
      · exact before_handleError ..

end Trampoline.Journal
