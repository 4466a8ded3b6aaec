set_option autoImplicit false

/-!
Blank characters, those with the Unicode property White_Space, and trimming at both ends.
-/
namespace Intcode.Text

def isBlank (c : Char) : Bool :=
  let n := c.toNat
  (0x9 ≤ n && n ≤ 0xD) || n == 0x20 || n == 0x85 || n == 0xA0 || n == 0x1680 ||
  (0x2000 ≤ n && n ≤ 0x200A) || n == 0x2028 || n == 0x2029 || n == 0x202F || n == 0x205F || n == 0x3000

def trimStart (cs : List Char) : List Char := cs.dropWhile isBlank

def trimEnd (cs : List Char) : List Char := (trimStart cs.reverse).reverse

def trim (cs : List Char) : List Char := trimEnd (trimStart cs)

end Intcode.Text
