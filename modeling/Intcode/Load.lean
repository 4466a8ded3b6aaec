import Intcode.Listing
import Intcode.Machine.Basic
set_option autoImplicit false

/-!
From program text straight to a machine or a listing.
-/
namespace Intcode

def Machine.load (source : String) : Except ParseError Machine :=
  (Program.parse source).map fun program => Machine.new program []

def Listing.ofSource (source : String) : Except ParseError String :=
  (Program.parse source).map Listing.text

end Intcode
