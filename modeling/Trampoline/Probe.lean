import Trampoline.Submission

/-! Probes: a small vocabulary for watching how chains are walked.

Each part does one simple thing to the sources it is given and some of them note
what they were given, so that a chain made of them shows every turn of the walk:
copies, losses and errors of single sources, silence, a redirector that can raise
the chain's flags, and an executor that can end the frame or abort the run. -/
namespace Trampoline.Probe

inductive Modifier where
  | copy (count : Nat)
  /-- Refuses the sources of a name, or all of them. -/
  | refuse (text : String) (name : Option String)
  /-- Drops the sources of a name, or all of them. -/
  | drop (name : Option String)
  | silence
  deriving DecidableEq, Repr

inductive Verb where
  | give (value : Int32) (text : String)
  /-- Fails for the sources of a name, or for all. -/
  | fail (text : String) (name : Option String)
  deriving DecidableEq, Repr

/-- Notes what it was given, raises flags, and lets the rest of the chain go on or not. -/
structure Tap where
  text : String
  returning : Bool
  forked : Bool
  stop : Bool
  deriving DecidableEq, Repr

/-- Notes what it was given, and then ends the frame with an outcome, if it has one. -/
structure Ender where
  outcome : Option Outcome
  /-- The run is aborted for the source of this name. -/
  abortFor : Option String
  deriving DecidableEq, Repr

def vocabulary : Vocabulary := ⟨Modifier, Verb, Tap, Ender⟩

/-- Whether a part is meant for a source. -/
def concerns (name : Option String) (source : Source) : Bool :=
  match name with
  | some n => n == source.name
  | none => true

def modify (m : Modifier) (source : Source) : Except CommandError (List Source) :=
  match m with
  | .copy count =>
    .ok ((List.range count).map fun (i : Nat) => source.named (source.name ++ "." ++ Numeral.text i))
  | .refuse text name => if concerns name source then .error (.invalid text) else .ok [source]
  | .drop name => .ok (if concerns name source then [] else [source])
  | .silence => .ok [source.silenced]

def perform (v : Verb) (source : Source) (scene : Scene Unit) :
    Except CommandError Int32 × Scene Unit :=
  match v with
  | .give value text => (.ok value, scene.write (·.display (.message source.name text)))
  | .fail text name => (if concerns name source then .error (.invalid text) else .ok 1, scene)

def flagText (b : Bool) : String := if b then "true" else "false"

def note (text : String) : Deed vocabulary Unit Unit := Work.change (·.write (·.add (.note text)))

def tap (t : Tap) (starter : Source) (sources : List Source) (chain : Chain vocabulary)
    (flags : Flags) (frame : Frame) : Deed vocabulary Unit Unit := do
  note ("tap " ++ t.text ++ " original=" ++ starter.name ++ " sources=" ++
    ",".intercalate (sources.map (·.name)) ++ " top=" ++ chain.top.input ++ " forked=" ++
    flagText flags.forked ++ " return=" ++ flagText flags.returning ++ " depth=" ++
    Numeral.text frame.depth)
  if t.stop then .done ()
  else
    let flags : Flags := ⟨flags.forked || t.forked, flags.returning || t.returning⟩
    Work.enqueue frame (.act (.walk chain.next starter sources flags))

def execute (e : Ender) (source : Source) (chain : Chain vocabulary) (flags : Flags)
    (frame : Frame) : Deed vocabulary Unit Unit := do
  note ("custom " ++ source.name ++ " silent=" ++ flagText source.silent ++ " terminal=" ++
    flagText chain.isTerminal ++ " forked=" ++ flagText flags.forked ++ " return=" ++
    flagText flags.returning)
  if e.abortFor == some source.name then .abort (.internal "custom abort")
  else
    match e.outcome with
    | some outcome => Work.conclude frame outcome
    | none => .done ()

def dialect : Dialect vocabulary Unit where
  modify m _ := modify m
  perform := perform
  redirect := tap
  execute := execute

/-- Gives a chain as a source, the given number of times, and runs it. -/
def run (limits : Limits) (traced profiled : Bool) (chain : Chain vocabulary) (source : Source)
    (callback : Callback) (times : Nat) :
    Ending × Machine (Scene Unit) (Task (Action vocabulary)) :=
  let start : Machine (Scene Unit) (Task (Action vocabulary)) :=
    { limits, world := ⟨{ traced, profiled }, ()⟩ }
  let m := (List.range times).foldl (fun m _ => m.submit callback (.act (.command chain source))) start
  m.run (Task.meaning .plain dialect.meaning) (m.fuel (Task.weight Action.weight) (2 * limits.forks))

end Trampoline.Probe
