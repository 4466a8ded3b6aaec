set_option autoImplicit false

/-!
Words set in rows of a fixed width: as many words to a row as fit, one blank between them. A word that
is longer than a row starts a row and is cut at its end.
-/
namespace Intcode.Screen

/-- Full rows cut off the front of a word, and what is left of it. -/
def chop (width : Nat) (word : List Char) : List (List Char) × List Char :=
  if _h : 0 < width ∧ width < word.length then
    let (rows, rest) := chop width (word.drop width)
    (word.take width :: rows, rest)
  else ([], word)
termination_by word.length
decreasing_by simp; omega

def wrapWords (width : Nat) (row : List Char) : List (List Char) → List (List Char)
  | [] => if row.isEmpty then [] else [row]
  | word :: words =>
    if !row.isEmpty && row.length + 1 + word.length ≤ width then
      wrapWords width (row ++ ' ' :: word) words
    else
      let (full, rest) := chop width word
      (if row.isEmpty then [] else [row]) ++ full ++ wrapWords width rest words

end Intcode.Screen
