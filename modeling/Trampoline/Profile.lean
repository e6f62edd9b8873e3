import Std.Data.ExtTreeMap
import Trampoline.Trace.Line

/-! Section profiles.

Sections open and close like brackets. A section is known by its path: the names of
the sections open around it and its own, joined by semicolons. The profile counts
how often each path was closed and adds up the time between opening and closing;
closing when nothing is open does nothing. -/
namespace Trampoline

structure Profile.Section where
  calls : Nat := 0
  /-- Nanoseconds inside the section, those inside it included. -/
  total : Nat := 0
  deriving DecidableEq, Repr

structure Profile where
  /-- The paths open, with the times they were opened at, innermost first. -/
  stack : List (String × Nat) := []
  /-- What is known of each path that was closed. -/
  sections : Std.ExtTreeMap String Profile.Section := {}
  deriving DecidableEq

namespace Profile

def depth (p : Profile) : Nat := p.stack.length

def openSection (p : Profile) (now : Nat) (name : String) : Profile :=
  let path := match p.stack with
    | (parent, _) :: _ => parent ++ ";" ++ name
    | [] => name
  { p with stack := (path, now) :: p.stack }

def closeSection (p : Profile) (now : Nat) : Profile :=
  match p.stack with
  | [] => p
  | (path, started) :: rest =>
    let s := p.sections.getD path {}
    { stack := rest
      sections := p.sections.insert path ⟨s.calls + 1, s.total + (now - started)⟩ }

/-- Paths with the most time first, those with the same time in order. -/
def report (p : Profile) : List (String × Section) :=
  p.sections.toList.mergeSort fun a b => b.2.total ≤ a.2.total

/-- A duration in its largest unit, without zeros at the end. -/
def durationText (nanoseconds : Nat) : List Char :=
  let inUnit (places : Nat) (unit : List Char) : List Char :=
    Decimal.dropZeros (Decimal.placed places nanoseconds) ++ unit
  if 1000000000 ≤ nanoseconds then inUnit 9 ['s']
  else if 1000000 ≤ nanoseconds then inUnit 6 ['m', 's']
  else if 1000 ≤ nanoseconds then inUnit 3 ['µ', 's']
  else Numeral.ofNat nanoseconds ++ ['n', 's']

/-- A row of the table, with its line end. -/
def row (calls total : List Char) (path : String) : String :=
  String.ofList (Trace.rightAligned 8 calls ++ ' ' :: Trace.rightAligned 12 total) ++ "  " ++ path ++ "\n"

/-- The report as a table, with at most `limit` rows under the heading. -/
def table (p : Profile) (limit : Nat) : String :=
  let rows := (p.report.take limit).map fun (path, s) =>
    row (Numeral.ofNat s.calls) (durationText s.total) path
  String.join (row "calls".toList "total".toList "section" :: rows)

end Profile

end Trampoline
