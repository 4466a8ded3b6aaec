set_option autoImplicit false

/-!
Tables of characters: inclusive ranges of code points, in ascending order and without overlap. A search
stops at the first range that begins too late, and misses nothing by that.
-/
namespace Intcode.Text

def inRanges (n : Nat) : List (Nat × Nat) → Bool
  | [] => false
  | r :: rest => r.1 ≤ n && (n ≤ r.2 || inRanges n rest)

end Intcode.Text
