import Trampoline.Json.Basic

/-! Reading JSON.

The grammar is the standard's, taken strictly: blanks are the space, the tab and the
two line ends, a number has no superfluous zero in front and no bare point, a text
holds no raw character below the space, and nothing but blanks follows the value.

Every call for a value, an item or a field passes on one less than it was given,
and `fuelFor` covers the text. -/
namespace Trampoline.Json

def isGap (c : Char) : Bool := c == ' ' || c == '\n' || c == '\t' || c == '\r'

def skipGaps (cs : List Char) : List Char := cs.dropWhile isGap

/-! ### Texts -/

def hexValue? (c : Char) : Option Nat :=
  if c.isDigit then some (c.toNat - '0'.toNat)
  else if 'a' ≤ c && c ≤ 'f' then some (c.toNat - 'a'.toNat + 10)
  else if 'A' ≤ c && c ≤ 'F' then some (c.toNat - 'A'.toNat + 10)
  else none

/-- The number of four hexadecimal digits. -/
def unit? (a b c d : Char) : Option Nat := do
  return 4096 * (← hexValue? a) + 256 * (← hexValue? b) + 16 * (← hexValue? c) + (← hexValue? d)

/-- What the letter after a backslash stands for. -/
def escaped? : Char → Option Nat
  | '"' => some 0x22
  | '\\' => some 0x5C
  | '/' => some 0x2F
  | 'b' => some 0x08
  | 'f' => some 0x0C
  | 'n' => some 0x0A
  | 'r' => some 0x0D
  | 't' => some 0x09
  | _ => none

/-- The units of a text after its opening quote: characters, and what escapes name. `taken` is
newest first. -/
def readUnits (taken : List Nat) : List Char → Option (List Nat × List Char)
  | '\\' :: 'u' :: a :: b :: c :: d :: rest =>
    match unit? a b c d with
    | some n => readUnits (n :: taken) rest
    | none => none
  | '\\' :: c :: rest =>
    match escaped? c with
    | some n => readUnits (n :: taken) rest
    | none => none
  | c :: rest =>
    if c == '"' then some (taken.reverse, rest)
    else if c.toNat < 0x20 || c == '\\' then none
    else readUnits (c.toNat :: taken) rest
  | [] => none

/-- Two halves of a surrogate pair make one code point. -/
def pair : List Nat → List Nat
  | high :: low :: rest =>
    if isHigh high && isLow low then
      (0x10000 + 0x400 * (high - 0xD800) + (low - 0xDC00)) :: pair rest
    else high :: pair (low :: rest)
  | ns => ns

/-- A text after its opening quote. -/
def readText (cs : List Char) : Option (List Nat × List Char) :=
  (readUnits [] cs).map fun (units, rest) => (pair units, rest)

/-! ### Numbers -/

/-- One digit or more. -/
def readDigits (cs : List Char) : Option (List Char × List Char) :=
  let digits := cs.takeWhile Char.isDigit
  if digits.isEmpty then none else some (digits, cs.drop digits.length)

/-- A zero, or digits that start with another one. -/
def readWhole : List Char → Option (List Char × List Char)
  | '0' :: rest => some (['0'], rest)
  | cs => readDigits cs

def readFraction : List Char → Option (List Char × List Char)
  | '.' :: rest => (readDigits rest).map fun (digits, rest) => ('.' :: digits, rest)
  | cs => some ([], cs)

def readExponent : List Char → Option (List Char × List Char)
  | c :: rest =>
    if c == 'e' || c == 'E' then
      match rest with
      | '+' :: rest => (readDigits rest).map fun (digits, rest) => (c :: '+' :: digits, rest)
      | '-' :: rest => (readDigits rest).map fun (digits, rest) => (c :: '-' :: digits, rest)
      | rest => (readDigits rest).map fun (digits, rest) => (c :: digits, rest)
    else some ([], c :: rest)
  | [] => some ([], [])

def readMagnitude (cs : List Char) : Option (List Char × List Char) := do
  let (whole, cs) ← readWhole cs
  let (fraction, cs) ← readFraction cs
  let (exponent, cs) ← readExponent cs
  return (whole ++ fraction ++ exponent, cs)

def readNumber : List Char → Option (List Char × List Char)
  | '-' :: rest => (readMagnitude rest).map fun (literal, rest) => ('-' :: literal, rest)
  | cs => readMagnitude cs

/-! ### Values -/

mutual
/-- A value, with blanks allowed in front. -/
def readValue : Nat → List Char → Option (Json × List Char)
  | 0, _ => none
  | n + 1, cs =>
    match skipGaps cs with
    | 'n' :: 'u' :: 'l' :: 'l' :: rest => some (.null, rest)
    | 't' :: 'r' :: 'u' :: 'e' :: rest => some (.bool true, rest)
    | 'f' :: 'a' :: 'l' :: 's' :: 'e' :: rest => some (.bool false, rest)
    | '"' :: rest => (readText rest).map fun (ns, rest) => (.text ns, rest)
    | '[' :: rest =>
      match skipGaps rest with
      | ']' :: rest => some (.array [], rest)
      | rest => (readItems n [] rest).map fun (items, rest) => (.array items, rest)
    | '\x7b' :: rest =>
      match skipGaps rest with
      | '\x7d' :: rest => some (.object [], rest)
      | rest => (readFields n [] rest).map fun (fields, rest) => (.object fields, rest)
    | rest => (readNumber rest).map fun (literal, rest) => (.number literal, rest)

/-- The items of an array up to its closing bracket; `read` is newest first. -/
def readItems : Nat → List Json → List Char → Option (List Json × List Char)
  | 0, _, _ => none
  | n + 1, read, cs =>
    match readValue n cs with
    | none => none
    | some (item, rest) =>
      match skipGaps rest with
      | ']' :: rest => some ((item :: read).reverse, rest)
      | ',' :: rest => readItems n (item :: read) rest
      | _ => none

/-- The fields of an object up to its closing brace; `read` is newest first. -/
def readFields : Nat → List (List Nat × Json) → List Char → Option (List (List Nat × Json) × List Char)
  | 0, _, _ => none
  | n + 1, read, cs =>
    match skipGaps cs with
    | '"' :: rest =>
      match readText rest with
      | none => none
      | some (key, rest) =>
        match skipGaps rest with
        | ':' :: rest =>
          match readValue n rest with
          | none => none
          | some (value, rest) =>
            match skipGaps rest with
            | '\x7d' :: rest => some (((key, value) :: read).reverse, rest)
            | ',' :: rest => readFields n ((key, value) :: read) rest
            | _ => none
        | _ => none
    | _ => none
end

/-- Each level of nesting, item or field takes at most two calls and at least one character. -/
def fuelFor (cs : List Char) : Nat := 2 * cs.length + 2

/-- A text that is one value with blanks around it. -/
def parse? (cs : List Char) : Option Json :=
  match readValue (fuelFor cs) cs with
  | some (value, rest) => if (skipGaps rest).isEmpty then some value else none
  | none => none

end Trampoline.Json
