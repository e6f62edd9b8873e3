import Trampoline.Chain
import Trampoline.Journal
import Trampoline.Machine.Fanout

/-! The engine: how chains of any vocabulary are run.

A chain is walked once for all its sources. Each modifier stage costs one unit and
replaces the sources by what it makes of them, in order. Before the first stage
that forks, an error of a source ends the walk; from there on it only loses that
source. A stage that makes more sources than the fork limit ends the walk with
one error, reported to the source the walk began with. At the last stage an
executor takes over for each source, or the command is scheduled for each of them.

When the chain is to end its frame, only the first source executes the command and
the frame's own callback hears the result after the source's; if no source is
left, a placeholder returns a failure instead.

A dialect gives the parts of a vocabulary their meaning. -/
namespace Trampoline

/-- A function body: parsed lines, under the name its calls are traced with. -/
structure Body (V : Vocabulary) where
  id : String
  lines : List (Chain V)
  /-- Tells apart bodies made at different times. -/
  serial : Nat := 0

namespace Body

variable {V : Vocabulary}

/-- Whether two bodies have one name and lines that read alike. -/
def same (a b : Body V) : Bool :=
  a.id == b.id && a.lines.length == b.lines.length &&
    (a.lines.zip b.lines).all fun (c, d) => c.same d

end Body

/-- What can be queued. -/
inductive Action (V : Vocabulary) where
  /-- Walks a chain for some sources; errors of the walk as a whole go to `starter`. -/
  | walk (chain : Chain V) (starter : Source) (sources : List Source) (flags : Flags)
  | execute (input : String) (command : V.Command) (flags : Flags) (source : Source)
  /-- Calls a body in a frame one deeper, which shares the caller's governor or has its own. -/
  | call (body : Body V) (returns : Callback) (shared : Bool) (source : Source)
  /-- Calls a body in a frame of its own that nothing outside can end. -/
  | isolated (body : Body V) (source : Source)
  /-- Returns a failure in place of a chain that ran out of sources. -/
  | fallthrough

/-- What entries of a vocabulary do. -/
abbrev Deed (V : Vocabulary) (η : Type) : Type → Type := Work (Scene η) (Task (Action V))

structure Dialect (V : Vocabulary) (η : Type) where
  modify : V.Modifier → η → Source → Except CommandError (List Source)
  perform : V.Command → Source → Scene η → Except CommandError Int32 × Scene η
  redirect : V.Redirector → (starter : Source) → (sources : List Source) → Chain V → Flags →
    Frame → Deed V η Unit
  execute : V.Executor → Source → Chain V → Flags → Frame → Deed V η Unit

/-! ### One modifier stage -/

/-- What a modifier stage makes of its sources. -/
inductive Spread where
  | onward (sources : List Source)
  /-- The walk ends here. -/
  | stopped
  deriving DecidableEq, Repr

/-- Applies a modifier to each source in turn. `made` are the sources made so far, newest first,
and `count` is their number. -/
def spread (modify : Source → Except CommandError (List Source)) (limit : Nat) (flags : Flags)
    (starter : Source) : List Source → (made : List Source) → (count : Nat) → Journal →
    Spread × Journal
  | [], made, _, j => (.onward made.reverse, j)
  | source :: rest, made, count, j =>
    match modify source with
    | .ok produced =>
      if limit < count + produced.length then
        (.stopped, j.handleError starter (.forkLimit limit) false)
      else
        spread modify limit flags starter rest (produced.reverseAux made)
          (count + produced.length) j
    | .error e =>
      let j := j.handleError source e flags.forked
      if flags.forked then spread modify limit flags starter rest made count j else (.stopped, j)

namespace Dialect

variable {V : Vocabulary} {η : Type} (D : Dialect V η)

/-- Takes a modifier stage: charges for it and gives what it made of the sources. -/
def redirectAll (m : V.Modifier) (starter : Source) (sources : List Source) (flags : Flags) :
    Deed V η Spread := do
  Work.pay 1
  .forkLimit fun limit => Work.act fun scene =>
    let (result, journal) := spread (D.modify m scene.host) limit flags starter sources [] 0 scene.journal
    (result, { scene with journal })

/-! ### The last stage -/

/-- The sources that execute the command of the last stage. -/
def executing (frame : Frame) (flags : Flags) (sources : List Source) : List Source :=
  if flags.returning then
    (sources.take 1).map fun s => s.reportingTo (s.callback.chain frame.returns)
  else sources

/-- At the end of the walk. -/
def finish (frame : Frame) (chain : Chain V) (sources : List Source) (flags : Flags) : Deed V η Unit :=
  if sources.isEmpty then
    if flags.returning then Work.enqueue frame (.act .fallthrough) else .done ()
  else
    match chain.top.executable with
    | some (.custom e) => sources.forM fun source => D.execute e source chain flags frame
    | some (.command c) =>
      Task.schedule .plain frame ((executing frame flags sources).map (.execute chain.input c flags))
    | none =>
      .abort (.internal ("terminal stage of '" ++ chain.input ++ "' has nothing to run"))

/-! ### The walk -/

/-- Walks on from `top`, with the stages of `after` still to come. -/
def descend (frame : Frame) (starter : Source) (input : String) :
    (before : List (Stage V)) → (top : Stage V) → (after : List (Stage V)) → List Source → Flags →
    Deed V η Unit
  | before, top, [], sources, flags => D.finish frame ⟨input, before, top, []⟩ sources flags
  | before, top, stage :: after, sources, flags =>
    let flags := if top.forks then { flags with forked := true } else flags
    match top.redirect with
    | some (.custom r) => D.redirect r starter sources ⟨input, before, top, stage :: after⟩ flags frame
    | some (.modifier m) => do
      match ← D.redirectAll m starter sources flags with
      | .stopped => .done ()
      | .onward [] => D.finish frame ⟨input, top :: before, stage, after⟩ [] flags
      | .onward sources => descend frame starter input (top :: before) stage after sources flags
    | none => .abort (.internal ("stage '" ++ top.input ++ "' neither redirects nor runs"))

/-- The work inside a profiled section. -/
def within (activity : Activity) (work : Deed V η Unit) : Deed V η Unit := do
  Work.change (·.write (·.openSection activity))
  work.ensuring (·.write (·.closeSection))

def walk (frame : Frame) (chain : Chain V) (starter : Source) (sources : List Source)
    (flags : Flags) : Deed V η Unit :=
  within (.prepare chain.input)
    (D.descend frame starter chain.input chain.before chain.top chain.after sources flags)

/-! ### The other actions -/

/-- Executes a command for a source and reports the outcome. -/
def settle (depth : Nat) (input : String) (command : V.Command) (flags : Flags) (source : Source)
    (scene : Scene η) : Scene η :=
  let scene := scene.write (·.trace (.command depth input))
  match D.perform command source scene with
  | (.ok result, scene) =>
    scene.write fun j => (j.hear source.callback (.ok result)).trace (.returned depth input result)
  | (.error e, scene) =>
    scene.write fun j => (j.hear source.callback .failure).handleError source e flags.forked

def executeOne (frame : Frame) (input : String) (command : V.Command) (flags : Flags)
    (source : Source) : Deed V η Unit :=
  within (.execute input) do
    Work.pay 1
    Work.change (D.settle frame.depth input command flags source)

/-- A line of a body, as it is run for a source. -/
def line (source : Source) (chain : Chain V) : Action V := .walk chain source [source] {}

def call (frame : Frame) (body : Body V) (returns : Callback) (shared : Bool) (source : Source) :
    Deed V η Unit := do
  Work.pay 1
  Work.change (·.write (·.trace (.call frame.depth body.id body.lines.length)))
  let depth := Depth.below frame.depth
  if shared then
    Task.schedule .plain ⟨depth, returns, frame.governor⟩ (body.lines.map (line source))
  else
    .govern depth fun g => Task.schedule .plain ⟨depth, returns, g⟩ (body.lines.map (line source))

/-- What each action does. -/
def meaning : Action V → Frame → Deed V η Unit
  | .walk chain starter sources flags, frame => D.walk frame chain starter sources flags
  | .execute input command flags source, frame => D.executeOne frame input command flags source
  | .call body returns shared source, frame => call frame body returns shared source
  | .isolated body source, frame =>
    let depth := Depth.below frame.depth
    .govern depth fun g =>
      Work.enqueue ⟨depth, source.callback, g⟩ (.act (.call body source.callback true source))
  | .fallthrough, frame => Work.conclude frame .failure

end Dialect

end Trampoline
