import Trampoline.Text.Blank

/-! Splitting at separators. -/
namespace Trampoline.Text

/-- The pieces between the separators; there is one more piece than there are separators. -/
def splitWhere (isSeparator : Char → Bool) (cs : List Char) : List (List Char) :=
  cs.foldr
    (fun c pieces =>
      if isSeparator c then [] :: pieces
      else match pieces with
        | [] => [[c]]
        | piece :: rest => (c :: piece) :: rest)
    [[]]

def split (sep : Char) (cs : List Char) : List (List Char) := splitWhere (· == sep) cs

/-- The pieces between blanks that are not empty. -/
def words (cs : List Char) : List (List Char) := (splitWhere isBlank cs).filter fun w => !w.isEmpty

/-- What stands before the first blank and, if there is one, what follows it. -/
def breakBlank (cs : List Char) : List Char × Option (List Char) :=
  let word := cs.takeWhile fun c => !isBlank c
  match cs.drop word.length with
  | [] => (word, none)
  | _ :: rest => (word, some rest)

end Trampoline.Text
