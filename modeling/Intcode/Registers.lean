import Intcode.Instruction.Basic
import Intcode.Memory
set_option autoImplicit false

/-!
The two registers and how a parameter becomes an operand. The program counter is signed, so that a jump
to a negative target is met at the next fetch.
-/
namespace Intcode

structure Registers where
  pc : Cell := 0
  relativeBase : Cell := 0
  deriving DecidableEq, Repr

inductive Operand
  | address (address : Count)
  | value (value : Cell)
  deriving DecidableEq, Repr

namespace Registers

/-- Past `width` cells, or to the largest address if that is nearer. -/
def advance (r : Registers) (width : Count) : Registers :=
  { r with pc := r.pc.saturatingAdd width.toInt64 }

def jump (r : Registers) (target : Cell) : Registers := { r with pc := target }

def shift (r : Registers) (delta : Cell) : Registers :=
  { r with relativeBase := r.relativeBase + delta }

def locate (a : Cell) : Except MemoryError Operand :=
  match a.toAddress? with
  | some address => .ok (.address address)
  | none => .error (.negativeAddress a)

def resolve (r : Registers) (raw : Cell) : Mode → Except MemoryError Operand
  | .position => locate raw
  | .immediate => .ok (.value raw)
  | .relative =>
    match Cell.ofInt? (r.relativeBase.toInt + raw.toInt) with
    | some a => locate a
    | none => .error (.addressOverflow r.relativeBase raw)

def describe (r : Registers) : String :=
  let pc := r.pc
  let base := r.relativeBase
  s!"Registers \x7b pc: {pc}, relative_base: {base} \x7d"

end Registers

end Intcode
