set_option autoImplicit false

/-!
Text set in a column of fixed width. Text that is too long keeps its length.
-/
namespace Intcode.Text

def spaces (n : Nat) : String := "".pushn ' ' n

def alignLeft (width : Nat) (s : String) : String := s ++ spaces (width - s.length)

def alignRight (width : Nat) (s : String) : String := spaces (width - s.length) ++ s

/-- An odd space goes to the right. -/
def alignCentre (width : Nat) (s : String) : String :=
  let room := width - s.length
  spaces (room / 2) ++ s ++ spaces (room - room / 2)

def cut (width : Nat) (s : String) : String := String.ofList (s.toList.take width)

end Intcode.Text
