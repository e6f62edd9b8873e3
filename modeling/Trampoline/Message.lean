/-! Messages.

A message is a key and its arguments in order. A reader with a table of its own
looks the key up there; the wording here is the English one. A wording is a list
of pieces with one argument between each two of them, and an argument that is
not there counts as empty. A key without a wording is shown as it is, with its
arguments in brackets. -/
namespace Trampoline

structure Message where
  key : String
  args : List String
  deriving DecidableEq, Repr

namespace Message

def unknownCommandKey : String := "command.unknown.command"
def unknownArgumentKey : String := "command.unknown.argument"
def forkLimitKey : String := "command.forkLimit"
def missingArgumentsKey : String := "commands.function.error.missing_arguments"
def missingArgumentKey : String := "commands.function.error.missing_argument"
def fillingKey : String := "commands.function.error.parse"
def unknownFunctionKey : String := "arguments.function.unknown"
def literalKey : String := "%s"

/-- The English wordings, each as the pieces around its arguments. -/
def wordings : List (String × List String) :=
  [(unknownCommandKey, ["Unknown or incomplete command, see below for error"]),
   (unknownArgumentKey, ["Incorrect argument for command"]),
   (forkLimitKey, ["Maximum number of contexts (", ") reached"]),
   (missingArgumentsKey, ["Can't call macro function ", " without arguments"]),
   (missingArgumentKey, ["Function ", " is missing argument ", ""]),
   (fillingKey, ["While instantiating macro ", ": Command '", "' caused error: ", ""]),
   (unknownFunctionKey, ["Unknown function ", ""]),
   (literalKey, ["", ""])]

/-- Pieces with the arguments between them. -/
def weave : List String → List String → String
  | [], _ => ""
  | [piece], _ => piece
  | piece :: rest, [] => piece ++ weave rest []
  | piece :: rest, arg :: args => piece ++ arg ++ weave rest args

def render (m : Message) : String :=
  match wordings.lookup m.key with
  | some pieces => weave pieces m.args
  | none =>
    if m.args.isEmpty then m.key else m.key ++ " [" ++ ", ".intercalate m.args ++ "]"

/-- A text shown as it is. -/
def literal (text : String) : Message := ⟨literalKey, [text]⟩

end Message

end Trampoline
