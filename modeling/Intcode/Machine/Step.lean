import Intcode.Machine.Basic
set_option autoImplicit false

/-!
One instruction. A step first works out everything the instruction needs, without touching the machine:
the word, its meaning, its operands left to right and last the address it writes. Whatever fails, fails
there, so a machine that meets an error differs from the one before only in its state. The effect that
remains is then carried out in one go, and cannot fail.
-/
namespace Intcode

inductive Step
  | executed (instruction : Instruction)
  | blocked
  | halted
  deriving DecidableEq, Repr

/-- What an instruction does once all its checks have passed. -/
inductive Effect
  | store (address : Nat) (value : Cell)
  | accept (address : Nat) (value : Cell)
  | emit (value : Cell)
  | jump (target : Cell)
  | pass
  | shift (delta : Cell)
  | halt
  deriving DecidableEq, Repr

structure Fetched where
  pc : Nat
  word : Cell
  instruction : Instruction
  deriving DecidableEq, Repr

namespace Machine

def fetch (m : Machine) : Except MachineError Fetched :=
  if m.regs.pc < 0 then .error (.programCounterOverrun m.regs.pc m.mem.size)
  else
    let pc := m.regs.pc.toUInt64.toNat
    match m.mem.cells[pc]? with
    | none => .error (.programCounterOverrun m.regs.pc m.mem.size)
    | some word => match decode word with
      | .error e => .error (.decode pc e)
      | .ok i => .ok ⟨pc, word, i⟩

def operand (m : Machine) (f : Fetched) (k : Nat) : Except MachineError Operand := do
  let mode ← (f.instruction.mode k).mapError (.decode f.pc)
  let raw ← (m.mem.read (f.pc + 1 + k)).mapError .memory
  (m.regs.resolve raw mode).mapError .memory

def readParam (m : Machine) (f : Fetched) (k : Nat) : Except MachineError Cell := do
  match ← m.operand f k with
  | .address a => (m.mem.read a.toNat).mapError .memory
  | .value v => return v

def target (m : Machine) (f : Fetched) (k : Nat) : Except MachineError Nat := do
  match ← m.operand f k with
  | .address a =>
    (m.mem.checkWrite a.toNat).mapError .memory
    return a.toNat
  | .value _ =>
    .error (.decode f.pc (.illegalAddressingMode k (modeDigit f.word (UInt64.ofNat k)) .write))

def combine (m : Machine) (f : Fetched) (op : Cell → Cell → Cell) : Except MachineError Effect := do
  let a ← m.readParam f 0
  let b ← m.readParam f 1
  let address ← m.target f 2
  return .store address (op a b)

def branch (m : Machine) (f : Fetched) (test : Cell → Bool) : Except MachineError Effect := do
  let a ← m.readParam f 0
  let goal ← m.readParam f 1
  return if test a then .jump goal else .pass

/-- What the instruction will do. There is none when it wants input and no input is queued. -/
def effect (m : Machine) (f : Fetched) : Except MachineError (Option Effect) :=
  match f.instruction.opcode with
  | .add => some <$> m.combine f (· + ·)
  | .multiply => some <$> m.combine f (· * ·)
  | .lessThan => some <$> m.combine f fun a b => if a < b then 1 else 0
  | .equals => some <$> m.combine f fun a b => if a = b then 1 else 0
  | .jumpIfTrue => some <$> m.branch f (· ≠ 0)
  | .jumpIfFalse => some <$> m.branch f (· = 0)
  | .input => match m.input with
    | [] => .ok none
    | value :: _ => do
      let address ← m.target f 0
      return some (.accept address value)
  | .output => do return some (.emit (← m.readParam f 0))
  | .adjustRelativeBase => do return some (.shift (← m.readParam f 0))
  | .halt => .ok (some .halt)

def traceParam (m : Machine) (f : Fetched) (k : Nat) (mode : Mode) : TraceParam :=
  let raw := (m.mem.read (f.pc + 1 + k)).toOption.getD 0
  let operand := (m.regs.resolve raw mode).toOption
  let access := f.instruction.opcode.access k
  { mode, access, raw
    address := match operand with
      | some (.address a) => some a
      | _ => none
    value := match access, operand with
      | .read, some (.value v) => some v
      | .read, some (.address a) => (m.mem.read a.toNat).toOption
      | _, _ => none }

def traceEntry (m : Machine) (f : Fetched) : TraceEntry where
  step := m.steps
  pc := m.regs.pc
  word := f.word
  opcode := f.instruction.opcode
  relativeBase := m.regs.relativeBase
  params := f.instruction.modes.mapIdx (m.traceParam f)

def apply (m : Machine) (width : Nat) : Effect → Machine
  | .store address value =>
    { m with mem := m.mem.store address value, regs := m.regs.advance (UInt64.ofNat width) }
  | .accept address value =>
    { m with
      mem := m.mem.store address value
      input := m.input.tail
      regs := m.regs.advance (UInt64.ofNat width) }
  | .emit value =>
    { m with output := m.output.push value, regs := m.regs.advance (UInt64.ofNat width) }
  | .jump goal => { m with regs := m.regs.jump goal }
  | .pass => { m with regs := m.regs.advance (UInt64.ofNat width) }
  | .shift delta => { m with regs := (m.regs.shift delta).advance (UInt64.ofNat width) }
  | .halt => m

def record (m : Machine) : Option TraceEntry → Machine
  | none => m
  | some e => { m with trace := m.trace.push e }

/-- Carries the effect out, counts the instruction and records it if tracing is on. The count wraps, as in a
build without overflow checks. -/
def commit (m : Machine) (f : Fetched) (e : Effect) : Machine :=
  let entry := if m.tracing then some (m.traceEntry f) else none
  let m := (m.apply f.instruction.width e).record entry
  { m with steps := m.steps + 1, state := if e = .halt then .halted else .running }

def step (m : Machine) : Except MachineError Step × Machine :=
  if m.state.isTerminal then (.error (.notRunning m.state), m)
  else match m.fetch with
    | .error e => (.error e, { m with state := .errored })
    | .ok f => match m.effect f with
      | .error e => (.error e, { m with state := .errored })
      | .ok none => (.ok .blocked, { m with state := .blocked })
      | .ok (some e) =>
        (.ok (if e = .halt then .halted else .executed f.instruction), m.commit f e)

end Machine

end Intcode
