import Intcode.Instruction.Basic
import Intcode.Text.Align
import Intcode.Text.Decimal
set_option autoImplicit false

/-!
The record of one executed instruction, and the line a person reads.
-/
namespace Intcode

/-- A parameter as the instruction met it. `value` is the operand of a read; it is absent for a target
and where the operand could not be read. -/
structure TraceParam where
  mode : Mode
  access : Access
  raw : Cell
  address : Option Count
  value : Option Cell
  deriving DecidableEq, Repr

structure TraceEntry where
  step : Count
  pc : Cell
  word : Cell
  opcode : Opcode
  relativeBase : Cell
  params : List TraceParam
  deriving DecidableEq, Repr

def TraceParam.outcome (p : TraceParam) : String :=
  match p.access, p.value with
  | .write, _ => " <- out"
  | .read, some value => s!" = {value}"
  | .read, none => " = ?"

def TraceParam.describe (index : Nat) (p : TraceParam) : String :=
  let mode := p.mode.adjective
  let place := match p.address with
    | some address => s!" [{address}]"
    | none => ""
  let outcome := p.outcome
  s!" | p{index} {mode}{place}{outcome}"

def TraceEntry.describe (e : TraceEntry) : String :=
  let step := Text.Decimal.padded 5 e.step.toNat
  let pc := Text.Decimal.padded 4 e.pc.toInt
  let mnemonic := Text.alignLeft 4 e.opcode.mnemonic
  let word := e.word
  let base := e.relativeBase
  let params := String.join (e.params.mapIdx TraceParam.describe)
  s!"{step} @{pc} {mnemonic} ({word}) rb={base}{params}"

end Intcode
