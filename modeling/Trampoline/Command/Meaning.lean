import Trampoline.Host

/-! What the standard vocabulary means. -/
namespace Trampoline.Command

def Condition.holds (c : Condition) (counters : Counters) : Bool :=
  decide (c.least ≤ counters.value c.counter) == c.expected

def modify (m : Modifier) (host : Host) (source : Source) : Except CommandError (List Source) :=
  match m with
  | .rename names => .ok (names.map source.named)
  | .silence => .ok [source.silenced]
  | .filter condition => .ok (if condition.holds host.counters then [source] else [])

def perform (v : Verb) (source : Source) (scene : Scene Host) :
    Except CommandError Int32 × Scene Host :=
  match v with
  | .say text => (.ok 1, scene.write (·.display (.message source.name text)))
  | .getCounter name => (.ok (scene.host.counters.value name), scene)
  | .addCounter name delta =>
    let (value, counters) := scene.host.counters.add name delta
    (.ok value, { scene with host := { scene.host with counters } })
  | .setCounter name value =>
    let counters := scene.host.counters.insert name value
    (.ok value, { scene with host := { scene.host with counters } })
  | .fail text => (.error (.invalid text), scene)
  | .test condition =>
    (if condition.holds scene.host.counters then .ok 1 else .error (.invalid "Test failed"), scene)

/-- `return run`: what waits in the frame is discarded, and the rest of the chain goes on in it. -/
def returnRun (starter : Source) (sources : List Source) (chain : Chain standard) (flags : Flags)
    (frame : Frame) : Deed standard Host Unit :=
  if sources.isEmpty then
    if flags.returning then Work.enqueue frame (.act .fallthrough) else .done ()
  else do
    Work.drop frame.governor
    Work.enqueue frame (.act (.walk chain.next starter sources { flags with returning := true }))

/-- Gets a function's body, or reports to the source why there is none. -/
def withBody (id : String) (arguments : Option Record) (source : Source) (flags : Flags)
    (next : Body standard → Deed standard Host Unit) : Deed standard Host Unit := do
  let result ← Work.act fun scene =>
    let (result, library) := scene.host.library.instantiate id arguments
    (result, { scene with host := { scene.host with library } })
  match result with
  | .ok body => next body
  | .error e => Work.change (·.write (·.handleError source e flags.forked))

def execute (e : Executor) (source : Source) (_ : Chain standard) (flags : Flags) (frame : Frame) :
    Deed standard Host Unit :=
  match e with
  | .return value => do
    let outcome := match value with
      | some n => Outcome.ok n
      | none => .failure
    Work.hear source.callback outcome
    Work.conclude frame outcome
  | .function id arguments =>
    withBody id arguments source flags fun body =>
      Work.enqueue frame (.act (
        if flags.returning then .call body frame.returns true source
        else .call body source.callback false source))
  | .trigger id =>
    withBody id none source flags fun body => Work.enqueue frame (.act (.isolated body source))

def dialect : Dialect standard Host where
  modify := modify
  perform := perform
  redirect | .returnRun => returnRun
  execute := execute

end Trampoline.Command
