/-! Templates: lines with variables in them.

A variable is written as a dollar sign and a name in parentheses; the name is made
of ASCII letters, digits and underscores. A dollar sign not followed by a
parenthesis is plain text. A template has at least one variable.

`holes` are the variables in order, each with the text in front of it; `tail` is
the text after the last one. -/
namespace Trampoline

inductive TemplateError where
  | unterminated
  | invalidName (name : String)
  | noVariables
  deriving DecidableEq, Repr

def TemplateError.message : TemplateError → String
  | .unterminated => "Unterminated macro variable"
  | .invalidName name => "Invalid macro variable name '" ++ name ++ "'"
  | .noVariables => "No variables in macro"

structure Template where
  holes : List (List Char × String)
  tail : List Char
  deriving DecidableEq, Repr

namespace Template

def isNameChar (c : Char) : Bool := c.isAlphanum || c == '_'

def isName (name : List Char) : Bool := !name.isEmpty && name.all isNameChar

mutual
/-- In plain text; `text` is the text since the last variable, newest first. -/
def scanText (holes : List (List Char × String)) (text : List Char) :
    List Char → Except TemplateError Template
  | [] => if holes.isEmpty then .error .noVariables else .ok ⟨holes.reverse, text.reverse⟩
  | '$' :: '(' :: rest => scanName holes text.reverse [] rest
  | c :: rest => scanText holes (c :: text) rest

/-- In a name, after `text`; `name` is newest first. -/
def scanName (holes : List (List Char × String)) (text name : List Char) :
    List Char → Except TemplateError Template
  | [] => .error .unterminated
  | ')' :: rest =>
    let name := name.reverse
    if isName name then scanText ((text, String.ofList name) :: holes) [] rest
    else .error (.invalidName (String.ofList name))
  | c :: rest => scanName holes text (c :: name) rest
end

def parse (cs : List Char) : Except TemplateError Template := scanText [] [] cs

def names (t : Template) : List String := t.holes.map Prod.snd

/-- The texts around the variables; one after the last variable only if it is not empty. -/
def segments (t : Template) : List (List Char) :=
  t.holes.map Prod.fst ++ (if t.tail.isEmpty then [] else [t.tail])

/-- Each text followed by its value, and the text after the last variable once more at the end.
With one value for each variable this puts the values in their places. -/
def fill (t : Template) (values : List String) : List Char :=
  (t.segments.zip values).flatMap (fun (text, value) => text ++ value.toList) ++ t.tail

/-- The line a template was read from. -/
def source (t : Template) : List Char :=
  t.holes.flatMap (fun (text, name) => text ++ '$' :: '(' :: (name.toList ++ [')'])) ++ t.tail

end Template

end Trampoline
