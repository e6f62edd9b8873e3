import Trampoline.Cursor
import Trampoline.Decimal.Literal
import Trampoline.Text.Blank
import Trampoline.Value.Printer

/-! Compound text: the arguments of a function call.

A compound is a list of `key:value` pairs in braces. A value is a compound, a list
in brackets, a quoted text or a bare word; only the plain space may stand between
tokens. In a quoted text a backslash makes the next character literal.

A bare word is a number when it looks like one. `true` and `false` are bytes, and
a letter at the end selects the kind of number: `b`, `s`, `l`, `f` or `d`, in
either case. Without such a letter a whole number is an integer and any other
number a double. A word that is no number, or one out of its range, is a text.

The reader works on the characters themselves; a failure keeps the characters it
was looking at, so its position in the text can be counted. Every call for a
value, an item or a field passes on one less than it was given, and `fuelFor`
covers the text. -/
namespace Trampoline.Compound

/-! ### Words -/

def isInteger (w : List Char) : Bool :=
  let digits := match w with
    | '-' :: rest => rest
    | '+' :: rest => rest
    | _ => w
  !digits.isEmpty && digits.all Char.isDigit

/-- Characters that occur in numbers, at least one of them a digit. -/
def isDecimal (w : List Char) : Bool :=
  let digits := match w with
    | '-' :: rest => rest
    | '+' :: rest => rest
    | _ => w
  digits.any Char.isDigit &&
    digits.all fun c => c.isDigit || c == '.' || c == 'e' || c == 'E' || c == '-' || c == '+'

/-- The letter that ends a word of two characters or more, in lower case, and what stands before. -/
def splitSuffix (w : List Char) : Option (List Char × Char) :=
  match w.reverse with
  | c :: before :: rest => if c.isAlpha then some ((before :: rest).reverse, c.toLower) else none
  | _ => none

/-- The number of a word with a letter at its end. -/
def suffixed (body : List Char) : Char → Option Value
  | 'b' => (Numeral.readInt8 body).map .byte
  | 's' => (Numeral.readInt16 body).map .short
  | 'l' => (Numeral.readInt64 body).map .long
  | 'f' => (Decimal.readSingle body).map .float
  | 'd' => (Decimal.readDouble body).map .double
  | _ => none

def number? (w : List Char) : Option Value :=
  match splitSuffix w with
  | some (body, suffix) => if isDecimal body then suffixed body suffix else none
  | none =>
    if isInteger w then (Numeral.readInt32 w).map .int
    else if isDecimal w then (Decimal.readDouble w).map .double
    else none

def classify (w : List Char) : Value :=
  if w == "true".toList then .byte 1
  else if w == "false".toList then .byte 0
  else (number? w).getD (.text (String.ofList w))

/-! ### Failures -/

inductive Cause where
  | compound
  | key
  | colon
  | value
  | separator (close : Char)
  | unterminated
  deriving DecidableEq, Repr

def Cause.message : Cause → String
  | .compound => "Expected '\x7b'"
  | .key => "Expected key"
  | .colon => "Expected ':'"
  | .value => "Expected value"
  | .separator close => "Expected ',' or '" ++ close.toString ++ "'"
  | .unterminated => "Unterminated quoted string"

/-- What was missing, and the characters it was missing in front of. -/
structure Failure where
  cause : Cause
  rest : List Char
  deriving DecidableEq, Repr

abbrev Result (α : Type) := Except Failure (α × List Char)

/-! ### Tokens -/

def skipSpaces (cs : List Char) : List Char := cs.dropWhile Cursor.isSpace

/-- A quoted text after its opening quote; `taken` is newest first. -/
def readQuoted (quote : Char) (taken : List Char) : List Char → Result (List Char)
  | [] => .error ⟨.unterminated, []⟩
  | '\\' :: [] => .error ⟨.unterminated, []⟩
  | '\\' :: c :: rest => readQuoted quote (c :: taken) rest
  | c :: rest => if c == quote then .ok (taken.reverse, rest) else readQuoted quote (c :: taken) rest

def isQuote (c : Char) : Bool := c == '"' || c == '\''

/-- A quoted text or a bare word; `bare` says what a bare word means. -/
def readToken (missing : Cause) (text bare : List Char → α) (cs : List Char) : Result α :=
  match cs with
  | c :: rest =>
    if isQuote c then
      match readQuoted c [] rest with
      | .error f => .error f
      | .ok (t, rest) => .ok (text t, rest)
    else
      let w := cs.takeWhile Value.isBareChar
      if w.isEmpty then .error ⟨missing, cs⟩ else .ok (bare w, cs.drop w.length)
  | [] => .error ⟨missing, []⟩

def readKey (cs : List Char) : Result String := readToken .key String.ofList String.ofList cs

def readScalar (cs : List Char) : Result Value :=
  readToken .value (fun t => .text (String.ofList t)) classify cs

/-! ### Values -/

mutual
/-- A value, with spaces allowed in front. -/
def readValue : Nat → List Char → Result Value
  | 0, cs => .error ⟨.value, cs⟩
  | n + 1, cs =>
    match skipSpaces cs with
    | '\x7b' :: rest =>
      match readBraces n rest with
      | .error f => .error f
      | .ok (r, rest) => .ok (.compound r, rest)
    | '[' :: rest =>
      match skipSpaces rest with
      | ']' :: rest => .ok (.list [], rest)
      | _ =>
        match readItems n [] rest with
        | .error f => .error f
        | .ok (items, rest) => .ok (.list items, rest)
    | rest => readScalar rest

/-- The items of a list up to its closing bracket; `read` is newest first. -/
def readItems : Nat → List Value → List Char → Result (List Value)
  | 0, _, cs => .error ⟨.value, cs⟩
  | n + 1, read, cs =>
    match readValue n cs with
    | .error f => .error f
    | .ok (v, rest) =>
      match skipSpaces rest with
      | ']' :: rest => .ok ((v :: read).reverse, rest)
      | ',' :: rest => readItems n (v :: read) rest
      | rest => .error ⟨.separator ']', rest⟩

/-- A compound after its opening brace. -/
def readBraces : Nat → List Char → Result Record
  | 0, cs => .error ⟨.key, cs⟩
  | n + 1, cs =>
    match skipSpaces cs with
    | '\x7d' :: rest => .ok ([], rest)
    | rest => readFields n [] rest

/-- The fields of a compound up to its closing brace. -/
def readFields : Nat → Record → List Char → Result Record
  | 0, _, cs => .error ⟨.key, cs⟩
  | n + 1, record, cs =>
    match readKey (skipSpaces cs) with
    | .error f => .error f
    | .ok (key, rest) =>
      match skipSpaces rest with
      | ':' :: rest =>
        match readValue n rest with
        | .error f => .error f
        | .ok (v, rest) =>
          match skipSpaces rest with
          | '\x7d' :: rest => .ok (record.insert key v, rest)
          | ',' :: rest => readFields n (record.insert key v) rest
          | rest => .error ⟨.separator '\x7d', rest⟩
      | rest => .error ⟨.colon, rest⟩
end

/-- Each level of nesting, item or field takes at most three calls and at least one character. -/
def fuelFor (cs : List Char) : Nat := 3 * cs.length + 3

/-- A compound, with spaces allowed in front. -/
def read (cs : List Char) : Result Record :=
  match skipSpaces cs with
  | '\x7b' :: rest => readBraces (fuelFor rest) rest
  | rest => .error ⟨.compound, rest⟩

end Trampoline.Compound

namespace Trampoline.Cursor

/-- The cursor moved on to a later part of its rest. -/
def moveTo (c : Cursor) (rest : List Char) : Cursor :=
  ⟨c.source, c.position + (Text.width c.rest - Text.width rest), rest⟩

/-- Reads a compound. -/
def compound (c : Cursor) : Except CommandError (Record × Cursor) :=
  match Compound.read c.rest with
  | .ok (r, rest) => .ok (r, c.moveTo rest)
  | .error f => .error ((CommandError.invalid f.cause.message).atPlace c.source (c.moveTo f.rest).position)

end Trampoline.Cursor

namespace Trampoline.Record

/-- A text that is one compound with blanks around it. -/
def ofText (text : String) : Except CommandError Record :=
  match (Cursor.ofText (Text.trimmed text)).compound with
  | .error e => .error e
  | .ok (r, c) =>
    let c := c.skipSpaces
    if c.atEnd then .ok r else .error c.invalid

end Trampoline.Record
