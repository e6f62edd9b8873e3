import Trampoline.Text.BreakClass

/-! Grapheme clusters.

A cluster is what a reader takes for one character. A text is divided into its extended
grapheme clusters by the rules of Unicode Text Segmentation: there is an edge between any two
characters unless a rule holds them together. Most rules see the two characters only; three ask
for what stands before them, and `Edge` keeps the answers: whether a pictograph is waiting for
another one, a consonant for the rest of its conjunct, a regional indicator for its partner. -/
namespace Trampoline.Text

namespace BreakClass

/-- Controls and line ends are clusters by themselves. -/
def standsAlone (k : BreakClass) : Bool := k == control || k == carriage || k == feed

/-- What belongs to the cluster before it. -/
def trails (k : BreakClass) : Bool :=
  k == extend || k == nonJoiner || k == linker || k == joiner || k == spacing

/-- The parts of a syllable that may follow each other. -/
def continues : BreakClass → BreakClass → Bool
  | initial, k => k == initial || k == medial || k == openSyllable || k == closedSyllable
  | openSyllable, k => k == medial || k == final
  | medial, k => k == medial || k == final
  | closedSyllable, k => k == final
  | final, k => k == final
  | _, _ => false

end BreakClass

/-- How far something has come that takes two partners and what joins them. -/
inductive Bond where
  | absent
  /-- The first partner is there. -/
  | begun
  /-- The next character may be the second partner. -/
  | joined
  deriving DecidableEq, Repr

namespace Bond

/-- A pictograph, extenders and one joiner hold the next pictograph. -/
def afterPictograph (b : Bond) : BreakClass → Bond
  | .pictograph => begun
  | .extend | .nonJoiner | .linker => if b == begun then begun else absent
  | .joiner => if b == begun then joined else absent
  | _ => absent

/-- A consonant and at least one linker, extenders and joiners among them, hold the next consonant. -/
def afterConsonant (b : Bond) : BreakClass → Bond
  | .consonant => begun
  | .linker => if b == absent then absent else joined
  | .extend | .joiner => b
  | _ => absent

end Bond

/-- What the rules know of the text before a place. -/
structure Edge where
  last : BreakClass := .other
  picture : Bond := .absent
  conjunct : Bond := .absent
  /-- Whether the last regional indicator has no partner. -/
  unpaired : Bool := false
  deriving DecidableEq, Repr

namespace Edge

def next (e : Edge) (k : BreakClass) : Edge :=
  ⟨k, e.picture.afterPictograph k, e.conjunct.afterConsonant k, k == .regional && !e.unpaired⟩

/-- Whether a character of class `k` belongs to the cluster before it. -/
def holds (e : Edge) (k : BreakClass) : Bool :=
  if e.last.standsAlone || k.standsAlone then e.last == .carriage && k == .feed
  else
    k.trails || e.last == .prepend || e.last.continues k ||
      (k == .pictograph && e.picture == .joined) || (k == .consonant && e.conjunct == .joined) ||
      (k == .regional && e.unpaired)

end Edge

/-! ### Dividing -/

/-- A text divided so far; the characters of the last cluster and the clusters before it are
newest first. -/
structure Division where
  edge : Edge := {}
  last : List Char := []
  done : List (List Char) := []

namespace Division

def add (d : Division) (c : Char) : Division :=
  let k := BreakClass.ofChar c
  if d.last.isEmpty || d.edge.holds k then ⟨d.edge.next k, c :: d.last, d.done⟩
  else ⟨d.edge.next k, [c], d.last.reverse :: d.done⟩

def clusters (d : Division) : List (List Char) :=
  (if d.last.isEmpty then d.done else d.last.reverse :: d.done).reverse

end Division

/-- The clusters of a text. -/
def clusters (cs : List Char) : List (List Char) := (cs.foldl Division.add {}).clusters

end Trampoline.Text
