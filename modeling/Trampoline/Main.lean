import Trampoline.CommandLine

/-! The program itself: it reads what the command line names, and writes what the
command line and the prompt leave to be shown.

A folder of functions is read through a file in it that lists its files. -/
namespace Trampoline.Main

/-- The file that lists a folder, one path to a line. -/
def indexName : String := "functions.index"

/-- The files with the one at a path, if it can be read. -/
def readFile (files : Files) (path : String) : IO Files := do
  try
    return files.put path (← IO.FS.readBinFile path)
  catch _ => return files

/-- The files with those of a listed folder. -/
def readFolder (files : Files) (path : String) : IO Files := do
  let index := Path.join path indexName
  let files ← readFile files index
  match files.readText index with
  | .error _ => return files
  | .ok text =>
    (Text.splitLines text).foldlM (fun files line => readFile files (Path.join path line)) files

/-- The files with the folder that an input loads. -/
def readFor (files : Files) (input : List Char) : IO Files :=
  match Directive.parse (String.ofList input) with
  | .ok (some (.load path)) => readFolder files path
  | _ => return files

/-- The files that the options name. -/
def readAll (o : CommandLine.Options) : IO Files := do
  let files ← (o.config.toList ++ o.scripts).foldlM readFile { root := .folder [] }
  let folder := match CommandLine.settings o files with
    | .ok s => s.functions
    | .error _ => none
  let files ← folder.toList.foldlM readFolder files
  let scripts := o.scripts.filterMap fun path => (files.readText path).toOption
  let inputs := scripts.flatMap fun text => (Draft.inputs none (Text.lines text.toList)).1
  (inputs ++ o.commands.map (·.toList)).foldlM readFor files

/-- Writes what is to be shown, oldest first. -/
def flush (p : Prompt) : IO Prompt := do
  for shown in p.shown.reverse do
    match shown with
    | .out text => IO.print text
    | .err text => IO.eprint text
  (← IO.getStdout).flush
  return p.wipe

def write (e : CommandLine.Exit) : IO UInt32 := do
  IO.print e.out
  IO.eprint e.err
  return e.code.toUInt32

/-- Reads lines up to the end of an input; none if one of them is broken. -/
partial def readInput (input : IO.FS.Stream) (pending : List Char) : IO (Option Reading) := do
  let line ← input.getLine
  if line.isEmpty then return some .ended
  match CommandLine.gather pending line.toList with
  | .complete text => return some (.line (String.ofList text))
  | .pending text => readInput input text
  | .broken => return none

/-- The loop of the prompt, with the clock set before every input. -/
partial def converse (input : IO.FS.Stream) (started : Nat) (p : Prompt) : IO UInt32 := do
  let p ← flush p.ask
  let some reading ← readInput input [] | return CommandLine.brokenCode.toUInt32
  let files ← match reading with
    | .line text => readFor p.files text.toList
    | _ => pure p.files
  let clock := (← IO.monoNanosNow) - started
  match { p with files, session := { p.session with clock } }.read reading with
  | (.waiting, p) => converse input started p
  | (.finished, p) =>
    discard (flush p.part)
    return 0
  | (.failed fault, p) =>
    discard (flush (p.showFault fault))
    return 1

def start (o : CommandLine.Options) : IO UInt32 := do
  let started ← IO.monoNanosNow
  match CommandLine.begin o (← readAll o) with
  | .error exit => write exit
  | .ok p =>
    if o.batch then write (CommandLine.close o p)
    else converse (← IO.getStdin) started p.greet

end Trampoline.Main

def main (arguments : List String) : IO UInt32 :=
  match Trampoline.CommandLine.parse arguments with
  | .error other => Trampoline.Main.write (Trampoline.CommandLine.answer other)
  | .ok o => Trampoline.Main.start o
