import Intcode.Debugger.Basic
import Intcode.Keyboard
set_option autoImplicit false

/-!
What the keys do in the debugger. A turn handles at most one key and then, while running, takes one beat.
-/
namespace Intcode

namespace Debugger

def pageSize : Nat := 16

def cancel (d : Debugger) : Debugger :=
  { d with typing := false, buffer := [], status := "Input cancelled." }

def editKey (d : Debugger) : Key → Debugger
  | .enter => d.submit
  | .escape => d.cancel
  | .backspace => { d with buffer := d.buffer.dropLast }
  | .char c => { d with buffer := d.buffer ++ [c] }
  | _ => d

def commandKey (d : Debugger) : Key → Debugger
  | .char 'q' => { d with quitting := true }
  | .char 's' => d.pause.step
  | .char 'r' => d.run
  | .char 'p' => { d.pause with status := "Paused." }
  | .char 'b' => d.toggleBreakpoint
  | .char 'i' =>
    { d.pause with
      typing := true
      status := "Enter comma-separated values, Enter to queue, Esc to cancel." }
  | .char 'x' => d.reset
  | .up => { d with scroll := d.scroll - 1 }
  | .down => if d.scroll + 1 < d.machine.mem.size then { d with scroll := d.scroll + 1 } else d
  | .pageDown => { d with scroll := min (d.scroll + pageSize) (d.machine.mem.size - 1) }
  | .pageUp => { d with scroll := d.scroll - pageSize }
  | _ => d

def press (d : Debugger) (k : Key) : Debugger := if d.typing then d.editKey k else d.commandKey k

def turn (d : Debugger) (k : Option Key) : Debugger :=
  let d := match k with
    | some k => d.press k
    | none => d
  if d.running then d.tick else d

/-- What is on the screen after all keys. The screen is drawn before each key, so a key that quits
leaves the screen as it was. -/
def shown (d : Debugger) : List Key → Debugger
  | [] => d
  | k :: keys =>
    let next := d.turn (some k)
    if next.quitting then d else next.shown keys

end Debugger

end Intcode
