import Intcode.Debugger.Basic
set_option autoImplicit false

/-!
The stretch of disassembly around the program counter. The sweep goes to the end of the program, or as
far past the program counter as the longest instruction reaches, whichever is further.
-/
namespace Intcode

structure WindowRow where
  address : Nat
  text : String
  isCurrent : Bool
  deriving DecidableEq, Repr

namespace Debugger

def span (d : Debugger) : Nat :=
  let reach := if d.pc < 0 then 0 else d.pc.toUInt64.toNat + 4
  min (max reach d.machine.program.size) d.machine.mem.size

def listing (d : Debugger) : List Line := Listing.lines (d.machine.mem.cells.extract 0 d.span)

def currentLine (pc : Cell) (lines : List Line) : Nat :=
  (lines.findIdx? fun l => pc.toInt < (l.address + l.width : Nat)).getD 0

/-- At most `height` lines, with the current one in the middle where there is room above it. -/
def window (d : Debugger) (height : Nat) : List WindowRow :=
  let lines := d.listing
  let start := currentLine d.pc lines - height / 2
  ((lines.drop start).take height).map fun l => ⟨l.address, l.text, (l.address : Int) = d.pc.toInt⟩

end Debugger

end Intcode
