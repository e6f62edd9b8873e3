import Trampoline.Json.Basic
import Trampoline.Numeral

/-! The text of JSON values.

`write` leaves no blanks; `pretty` puts every item and every field on a line of its
own, two spaces deeper than what holds it. In a text the quote, the backslash and
the characters below the space are escaped, the rest stands for itself. -/
namespace Trampoline.Json

def nat (n : Nat) : Json := .number (Numeral.ofNat n)

def int (n : Int) : Json := .number (Numeral.ofInt n)

/-- Fields whose keys are texts. -/
def ofFields (fields : List (String × Json)) : Json :=
  .object (fields.map fun (key, value) => (points key, value))

def hexDigit (n : Nat) : Char := Nat.digitChar (n % 16)

/-- An escape of four hexadecimal digits. -/
def unitEscape (n : Nat) : List Char :=
  ['\\', 'u', hexDigit (n / 4096), hexDigit (n / 256), hexDigit (n / 16), hexDigit n]

/-- The text of one code point. -/
def writePoint (n : Nat) : List Char :=
  if n == 0x22 then ['\\', '"']
  else if n == 0x5C then ['\\', '\\']
  else if n == 0x08 then ['\\', 'b']
  else if n == 0x0C then ['\\', 'f']
  else if n == 0x0A then ['\\', 'n']
  else if n == 0x0D then ['\\', 'r']
  else if n == 0x09 then ['\\', 't']
  else if n < 0x20 || isSurrogate n then unitEscape n
  else [Char.ofNat n]

def writeText (ns : List Nat) : List Char := '"' :: (ns.flatMap writePoint ++ ['"'])

def writeBool (b : Bool) : List Char := if b then "true".toList else "false".toList

mutual
def write : Json → List Char
  | .null => "null".toList
  | .bool b => writeBool b
  | .number literal => literal
  | .text ns => writeText ns
  | .array items => '[' :: (writeItems items ++ [']'])
  | .object fields => '\x7b' :: (writeFields fields ++ ['\x7d'])

def writeItems : List Json → List Char
  | [] => []
  | [item] => write item
  | item :: rest => write item ++ ',' :: writeItems rest

def writeFields : List (List Nat × Json) → List Char
  | [] => []
  | [(key, value)] => writeText key ++ ':' :: write value
  | (key, value) :: rest => writeText key ++ ':' :: (write value ++ ',' :: writeFields rest)
end

/-- The start of a line at a level of nesting. -/
def newLine (level : Nat) : List Char := '\n' :: List.replicate (2 * level) ' '

mutual
/-- The text at a level of nesting. -/
def pretty (level : Nat) : Json → List Char
  | .array (item :: rest) =>
    '[' :: (prettyItems (level + 1) (item :: rest) ++ newLine level ++ [']'])
  | .object (field :: rest) =>
    '\x7b' :: (prettyFields (level + 1) (field :: rest) ++ newLine level ++ ['\x7d'])
  | .array [] => ['[', ']']
  | .object [] => ['\x7b', '\x7d']
  | .null => write .null
  | .bool b => write (.bool b)
  | .number literal => write (.number literal)
  | .text ns => write (.text ns)

def prettyItems (level : Nat) : List Json → List Char
  | [] => []
  | [item] => newLine level ++ pretty level item
  | item :: rest => newLine level ++ pretty level item ++ ',' :: prettyItems level rest

def prettyFields (level : Nat) : List (List Nat × Json) → List Char
  | [] => []
  | [(key, value)] => newLine level ++ writeText key ++ ':' :: ' ' :: pretty level value
  | (key, value) :: rest =>
    newLine level ++ writeText key ++ ':' :: ' ' :: pretty level value ++ ',' :: prettyFields level rest
end

end Trampoline.Json
