import Intcode.Instruction.Decode
import Intcode.Program
import Intcode.Text.Align
set_option autoImplicit false

/-!
Disassembly. Code and data are not told apart in memory, so a listing sweeps from address 0: what
decodes and fits before the end is an instruction, everything else is one cell of data.
-/
namespace Intcode

inductive Statement
  | instruction (instruction : Instruction) (params : List Cell)
  | data (word : Cell)
  deriving DecidableEq, Repr

namespace Statement

def width : Statement → Nat
  | .instruction i _ => i.width
  | .data _ => 1

theorem width_pos (s : Statement) : 0 < s.width := by
  cases s <;> simp [width, Instruction.width, Opcode.width]

def operandText (mode : Mode) (raw : Cell) : String :=
  match mode with
  | .position => s!"[{raw}]"
  | .immediate => s!"{raw}"
  | .relative => if raw < 0 then s!"[rb{raw}]" else s!"[rb+{raw}]"

def text : Statement → String
  | .instruction i params =>
    match List.zipWith operandText i.modes params with
    | [] => i.opcode.mnemonic
    | operands =>
      let mnemonic := i.opcode.mnemonic
      let operands := String.ofList (List.intercalate [',', ' '] (operands.map String.toList))
      s!"{mnemonic} {operands}"
  | .data word => s!"DATA {word}"

end Statement

structure Line where
  address : Nat
  statement : Statement
  deriving DecidableEq, Repr

def Line.width (l : Line) : Nat := l.statement.width
def Line.text (l : Line) : String := l.statement.text

namespace Listing

/-- The line at an address. Past the end there is a zero, which is data. -/
def lineAt (cells : Array Cell) (address : Nat) : Line :=
  let word := cells.getD address 0
  match decode word with
  | .ok i =>
    if address + i.width ≤ cells.size then
      ⟨address, .instruction i (cells.extract (address + 1) (address + i.width)).toList⟩
    else ⟨address, .data word⟩
  | .error _ => ⟨address, .data word⟩

def sweep (cells : Array Cell) (address : Nat) : List Line :=
  if address < cells.size then
    let line := lineAt cells address
    line :: sweep cells (address + line.width)
  else []
termination_by cells.size - address
decreasing_by
  have := (lineAt cells address).statement.width_pos
  simp only [Line.width]
  omega

def lines (cells : Array Cell) : List Line := sweep cells 0

def rawText (cells : Array Cell) (l : Line) : String :=
  Program.format (cells.extract l.address (l.address + l.width))

def row (cells : Array Cell) (l : Line) : String :=
  let address := Text.Decimal.padded 4 l.address
  let statement := Text.alignLeft 28 l.text
  let raw := rawText cells l
  s!"{address}: {statement} ; {raw}\n"

def header : String := "; Intcode Disassembly\n; -------------------\n\n"

def text (cells : Array Cell) : String := header ++ String.join ((lines cells).map (row cells))

end Listing

end Intcode
