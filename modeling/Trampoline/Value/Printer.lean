import Trampoline.Value.Basic
import Trampoline.Decimal.Fixed

/-! The text of a value.

Each width of number has its own mark after the digits, except the plain integer;
texts are quoted, a quote or a backslash in them written after a backslash; lists
stand in brackets and compounds in braces, with nothing between a comma and the
next item. A field's name is written bare when it can be.

`argument` is the text put into a template: numbers without their mark and texts
without quotes. -/
namespace Trampoline.Value

/-- The characters of bare words: names of fields, numbers and unquoted texts. -/
def isBareChar (c : Char) : Bool := c.isAlphanum || c == '_' || c == '-' || c == '.' || c == '+'

def isBareKey (key : String) : Bool :=
  let cs := key.toList
  !cs.isEmpty && cs.all isBareChar

/-- A quote or a backslash is written after a backslash, all else as it is. -/
def escape (cs : List Char) : List Char :=
  cs.flatMap fun c => if c == '"' || c == '\\' then ['\\', c] else [c]

def quoted (s : String) : List Char := '"' :: (escape s.toList ++ ['"'])

def keyChars (key : String) : List Char := if isBareKey key then key.toList else quoted key

mutual
def chars : Value → List Char
  | .byte n => Numeral.ofInt n.toInt ++ ['b']
  | .short n => Numeral.ofInt n.toInt ++ ['s']
  | .int n => Numeral.ofInt n.toInt
  | .long n => Numeral.ofInt n.toInt ++ ['L']
  | .float bits => Decimal.plainSingle bits ++ ['f']
  | .double bits => Decimal.plainDouble bits ++ ['d']
  | .text s => quoted s
  | .list [] => ['[', ']']
  | .list (v :: rest) => '[' :: (chars v ++ itemsChars rest)
  | .compound [] => ['\x7b', '\x7d']
  | .compound ((k, v) :: rest) => '\x7b' :: (keyChars k ++ ':' :: (chars v ++ fieldsChars rest))

/-- The items after the first, and the closing bracket. -/
def itemsChars : List Value → List Char
  | [] => [']']
  | v :: rest => ',' :: (chars v ++ itemsChars rest)

/-- The fields after the first, and the closing brace. -/
def fieldsChars : List (String × Value) → List Char
  | [] => ['\x7d']
  | (k, v) :: rest => ',' :: (keyChars k ++ ':' :: (chars v ++ fieldsChars rest))
end

def describe (v : Value) : String := String.ofList (chars v)

/-- The text that stands for the value in a template. -/
def argument : Value → String
  | .byte n => Numeral.text n.toInt
  | .short n => Numeral.text n.toInt
  | .int n => Numeral.text n.toInt
  | .long n => Numeral.text n.toInt
  | .float bits => String.ofList (Decimal.plainSingle bits)
  | .double bits => String.ofList (Decimal.plainDouble bits)
  | .text s => s
  | v => describe v

end Trampoline.Value

namespace Trampoline.Record

def describe (r : Record) : String := (Value.compound r).describe

end Trampoline.Record
