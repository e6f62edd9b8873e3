/-! Lines.

A text is a sequence of lines, each ended by a line feed. A carriage return
directly before the line feed belongs to the line's end; a carriage return
anywhere else belongs to the line. What follows the last line feed is a line
only if it is not empty. -/
namespace Trampoline.Text

/-- A finished line, kept newest character first, without one carriage return at its end. -/
def closeLine : List Char → List Char
  | '\r' :: rest => rest.reverse
  | line => line.reverse

/-- `open_` is the line being read and `done` the lines read, both newest first. -/
def linesFrom (open_ : List Char) (done : List (List Char)) : List Char → List (List Char)
  | [] => if open_.isEmpty then done.reverse else (open_.reverse :: done).reverse
  | '\n' :: rest => linesFrom [] (closeLine open_ :: done) rest
  | c :: rest => linesFrom (c :: open_) done rest

def lines (cs : List Char) : List (List Char) := linesFrom [] [] cs

/-- The lines of a text, as texts. -/
def splitLines (s : String) : List String := (lines s.toList).map String.ofList

end Trampoline.Text
