import Trampoline.Continuation

/-! Drafts: inputs that are still open, ready for their next line.

A draft keeps beside each character the scan up to it. To join a line, the blanks and the
backslash at the end are taken off and the line is put on, and the scans of what stays are still
good, so nothing is scanned twice however many lines an input has.

A draft holds no more than its text (`Draft.ofText`), and reads a script exactly as the text
itself does (`Draft.inputs_ofText`). -/
namespace Trampoline

open Continuation (Scan)

/-- The characters of an input, newest first, each with the scan that ends with it. -/
structure Draft where
  marks : List (Char × Scan) := []

namespace Draft

def scan (d : Draft) : Scan :=
  match d.marks with
  | [] => {}
  | (_, s) :: _ => s

def push (d : Draft) (c : Char) : Draft := ⟨(c, d.scan.step c) :: d.marks⟩

def pushAll (d : Draft) (cs : List Char) : Draft := cs.foldl push d

def ofText (cs : List Char) : Draft := pushAll {} cs

def text (d : Draft) : List Char := (d.marks.map Prod.fst).reverse

/-- Without the blanks at its end. -/
def trimEnd (d : Draft) : Draft := ⟨d.marks.dropWhile fun mark => Text.isBlank mark.1⟩

def last? (d : Draft) : Option Char := d.marks.head?.map Prod.fst

/-- Without its last character. -/
def dropLast (d : Draft) : Draft := ⟨d.marks.tail⟩

def isComplete (d : Draft) : Bool := !(d.trimEnd.last? == some '\\') && d.scan.isClosed

/-- A draft with one more line. -/
def join (d : Draft) (line : List Char) : Draft :=
  let d := d.trimEnd
  let d := if d.last? == some '\\' then d.dropLast else d.push ' '
  d.pushAll (Text.trimStart line)

/-! ### Scripts -/

/-- One more line of a script after the draft left open, if there is one: the input it completes,
and the draft it leaves open. -/
def feed (pending : Option Draft) (line : List Char) : Option (List Char) × Option Draft :=
  match pending with
  | some d =>
    let d := d.join line
    if d.isComplete then (some d.text, none) else (none, some d)
  | none =>
    if Continuation.isSkipped line then (none, none)
    else if Continuation.isComplete line then (some line, none)
    else (none, some (ofText line))

/-- The inputs of a script's lines, in order, and the draft left open at their end. -/
def inputs (pending : Option Draft) : List (List Char) → List (List Char) × Option Draft
  | [] => ([], pending)
  | line :: rest =>
    let (input, pending) := feed pending line
    let (more, left) := inputs pending rest
    (input.toList ++ more, left)

/-! ### What a draft holds -/

/-- The marks of a text given newest character first. -/
def marksOf : List Char → List (Char × Scan)
  | [] => []
  | c :: older => (c, (Continuation.scan (c :: older).reverse)) :: marksOf older

theorem map_fst_marksOf (newest : List Char) : (marksOf newest).map Prod.fst = newest := by
  induction newest with
  | nil => rfl
  | cons c older ih => rw [marksOf, List.map_cons, ih]

theorem scan_marksOf (newest : List Char) :
    scan ⟨marksOf newest⟩ = Continuation.scan newest.reverse := by
  cases newest with
  | nil => rfl
  | cons c older => rfl

theorem push_marksOf (newest : List Char) (c : Char) :
    push ⟨marksOf newest⟩ c = ⟨marksOf (c :: newest)⟩ := by
  simp only [push, scan_marksOf, marksOf, Continuation.scan, List.reverse_cons, List.foldl_append,
    List.foldl_cons, List.foldl_nil]

theorem pushAll_marksOf (newest cs : List Char) :
    pushAll ⟨marksOf newest⟩ cs = ⟨marksOf (cs.reverse ++ newest)⟩ := by
  induction cs generalizing newest with
  | nil => rfl
  | cons c rest ih =>
    rw [pushAll, List.foldl_cons, push_marksOf, ← pushAll, ih, List.reverse_cons, List.append_assoc]
    rfl

theorem ofText_eq (cs : List Char) : ofText cs = ⟨marksOf cs.reverse⟩ := by
  have h := pushAll_marksOf [] cs
  rw [List.append_nil] at h
  exact h

theorem text_ofText (cs : List Char) : (ofText cs).text = cs := by
  rw [ofText_eq, text, map_fst_marksOf, List.reverse_reverse]

theorem scan_ofText (cs : List Char) : (ofText cs).scan = Continuation.scan cs := by
  rw [ofText_eq, scan_marksOf, List.reverse_reverse]

theorem pushAll_ofText (cs more : List Char) : (ofText cs).pushAll more = ofText (cs ++ more) := by
  rw [ofText_eq, pushAll_marksOf, ofText_eq, List.reverse_append]

theorem dropWhile_marksOf (p : Char → Bool) (newest : List Char) :
    (marksOf newest).dropWhile (fun mark => p mark.1) = marksOf (newest.dropWhile p) := by
  induction newest with
  | nil => rfl
  | cons c older ih =>
    rw [marksOf, List.dropWhile_cons, List.dropWhile_cons]
    cases p c with
    | true => simp only [if_true, ih]
    | false => simp only [Bool.false_eq_true, if_false, marksOf]

theorem trimEnd_ofText (cs : List Char) : (ofText cs).trimEnd = ofText (Text.trimEnd cs) := by
  rw [ofText_eq, trimEnd, dropWhile_marksOf, ofText_eq, Text.trimEnd, List.reverse_reverse]

theorem last?_ofText (cs : List Char) : (ofText cs).last? = cs.getLast? := by
  rw [ofText_eq, last?, ← List.head?_map, map_fst_marksOf, List.head?_reverse]

theorem dropLast_ofText (cs : List Char) : (ofText cs).dropLast = ofText cs.dropLast := by
  rw [ofText_eq, ofText_eq, dropLast, ← List.tail_reverse]
  cases cs.reverse with
  | nil => rfl
  | cons c older => rfl

theorem isComplete_ofText (cs : List Char) : (ofText cs).isComplete = Continuation.isComplete cs := by
  rw [isComplete, trimEnd_ofText, last?_ofText, scan_ofText]
  rfl

theorem join_ofText (cs line : List Char) :
    (ofText cs).join line = ofText (Continuation.join cs line) := by
  rw [join, trimEnd_ofText, Continuation.join]
  simp only [last?_ofText]
  split
  · rw [dropLast_ofText, pushAll_ofText]
  · show ((ofText _).pushAll [' ']).pushAll _ = _
    rw [pushAll_ofText, pushAll_ofText]

theorem feed_ofText (pending : Option (List Char)) (line : List Char) :
    feed (pending.map ofText) line =
      ((Continuation.feed pending line).1, (Continuation.feed pending line).2.map ofText) := by
  cases pending with
  | none =>
    rw [Option.map_none, feed, Continuation.feed]
    split
    · rfl
    · rw [Continuation.settle]
      split <;> rfl
  | some cs =>
    rw [Option.map_some, feed, Continuation.feed, Continuation.settle]
    simp only [join_ofText, isComplete_ofText, text_ofText]
    split <;> rfl

/-- Drafts complete the same inputs of a script as their texts do, and leave the same one open. -/
theorem inputs_ofText (pending : Option (List Char)) (lines : List (List Char)) :
    inputs (pending.map ofText) lines =
      ((Continuation.inputs pending lines).1, (Continuation.inputs pending lines).2.map ofText) := by
  induction lines generalizing pending with
  | nil => rfl
  | cons line rest ih => simp only [inputs, Continuation.inputs, feed_ofText, ih]

end Draft

end Trampoline
