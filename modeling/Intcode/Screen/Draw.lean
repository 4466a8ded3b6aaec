import Intcode.Debugger.Window
import Intcode.Screen.Picture
import Intcode.Screen.Wrap
set_option autoImplicit false

/-!
The debugger's screen. Three fifths of the width show disassembly, registers and status; the rest shows
memory, output and help.
-/
namespace Intcode.Screen

def boldYellow : Style := { colour := some .yellow, bold := true }

def disassemblyRow (d : Debugger) (width : Nat) (w : WindowRow) : Row :=
  let stopped := Int64.ofNat w.address ∈ d.breakpoints
  let mark := if stopped then "●" else " "
  let arrow := if w.isCurrent then "▶ " else "  "
  let address := Text.Decimal.padded 4 w.address
  let text := w.text
  let style := if w.isCurrent then boldYellow else if stopped then Colour.red.style else plain
  itemRow width style s!"{mark} {arrow}{address}: {text}"

def disassembly (d : Debugger) (width height : Nat) : List Row :=
  let p : Panel := { width, height, title := " Disassembly ", border := Colour.cyan.style }
  p.draw ((d.window p.innerHeight).map (disassemblyRow d p.innerWidth))

def stateColour : State → Colour
  | .ready | .running => .green
  | .blocked => .yellow
  | .halted => .gray
  | .errored => .red

def queueText (values : List Cell) : String :=
  let values := ", ".intercalate (values.map toString)
  s!"[{values}]"

def registers (d : Debugger) (width height : Nat) : List Row :=
  let p : Panel := { width, height, title := " Registers ", border := Colour.green.style }
  let m := d.machine
  p.draw [
    row plain "PC: " ++ row Colour.yellow.style (Text.alignLeft 8 (toString m.regs.pc)) ++
      row plain "  RB: " ++ row Colour.white.style (toString m.regs.relativeBase),
    row plain "Steps: " ++ row Colour.cyan.style (Text.alignLeft 8 (toString m.steps)) ++
      row plain "  State: " ++ row (stateColour m.state).style m.state.name,
    row plain "Input queue: " ++ row Colour.white.style (queueText m.input),
    row plain "Memory cells: " ++ row Colour.darkGray.style (toString m.mem.size)]

/-- The input line takes the place of the status while typing. -/
def status (d : Debugger) (width height : Nat) : List Row :=
  let style := Colour.white.style
  let buffer := String.ofList d.buffer
  let title := if d.typing then " Input " else " Status "
  let text := if d.typing then s!"> {buffer}_" else d.status
  let p : Panel := { width, height, title, border := style, inside := style }
  p.draw [row style text]

def memoryRow (pc : Cell) (width address : Nat) (value : Cell) : Row :=
  let text := Text.Decimal.padded 4 address
  let style :=
    if (address : Int) = pc.toInt then boldYellow
    else if value ≠ 0 then Colour.white.style
    else Colour.darkGray.style
  itemRow width style s!"{text}: {value}"

def memory (d : Debugger) (width height : Nat) : List Row :=
  let p : Panel := { width, height, title := " Memory ", border := Colour.magenta.style }
  let cells := d.machine.cellsIn d.scroll (d.scroll + p.innerHeight)
  p.draw (cells.toList.mapIdx fun k v => memoryRow d.pc p.innerWidth (d.scroll + k) v)

/-- The latest values that fit in `room` characters, each with a blank after it; `latest` comes last
first. -/
def recent (room : Nat) : List Cell → List (List Char)
  | [] => []
  | v :: rest =>
    let word := Text.Decimal.chars v.toInt
    if word.length + 1 ≤ room then recent (room - (word.length + 1)) rest ++ [word] else []

def output (d : Debugger) (width height : Nat) : List Row :=
  let count := d.log.size
  let p : Panel := { width, height, title := s!" Output ({count}) ", border := Colour.blue.style }
  let lineWidth := max p.innerWidth 1
  let words := recent (lineWidth * 4) d.log.toList.reverse
  p.draw ((wrapWords lineWidth [] words).map fun r => row plain (String.ofList r))

def help (width height : Nat) : List Row :=
  let style := Colour.darkGray.style
  let p : Panel := { width, height, title := " Help ", border := style, inside := style }
  p.draw ([
    "s: Step  r: Run  p: Pause  b: Breakpoint",
    "i: Input  x: Reset  q: Quit",
    "↑↓/PgUp/PgDn: Scroll memory"].map (row style))

def draw (d : Debugger) (cols rows : Nat) : List Row :=
  let left := cols * 3 / 5
  let right := cols - left
  beside
    (disassembly d left (rows - 9) ++ registers d left 6 ++ status d left 3)
    (memory d right (rows - 11) ++ output d right 6 ++ help right 5)

def Colour.letter : Colour → Char
  | .red => 'r'
  | .green => 'g'
  | .yellow => 'y'
  | .blue => 'b'
  | .magenta => 'm'
  | .cyan => 'c'
  | .gray => 'a'
  | .darkGray => 'd'
  | .white => 'w'

def Style.letter (s : Style) : Char :=
  match s.colour with
  | none => '.'
  | some c => if s.bold then c.letter.toUpper else c.letter

def rowText (r : Row) : String :=
  String.ofList (r.flatMap fun g => if g.wide then g.text ++ [' '] else g.text)

def rowStyles (r : Row) : String :=
  String.ofList (r.flatMap fun g => List.replicate g.width g.style.letter)

end Intcode.Screen
