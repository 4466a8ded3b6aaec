import Intcode.Instruction.Decode
import Intcode.Registers
import Intcode.Trace
set_option autoImplicit false

/-!
A machine at rest: its parts, how one is built, and what a caller may do to it between steps.
-/
namespace Intcode

inductive State
  | ready
  | running
  | blocked
  | halted
  | errored
  deriving DecidableEq, Repr

def State.all : List State := [.ready, .running, .blocked, .halted, .errored]

def State.name : State → String
  | .ready => "Ready"
  | .running => "Running"
  | .blocked => "Blocked"
  | .halted => "Halted"
  | .errored => "Errored"

def State.isTerminal : State → Bool
  | .halted | .errored => true
  | _ => false

inductive MachineError
  | notRunning (state : State)
  | invalidConfig (minMemory maxMemory : Count)
  | programCounterOverrun (pc : Cell) (size : Nat)
  | decode (pc : Nat) (cause : DecodeError)
  | memory (cause : MemoryError)
  deriving DecidableEq, Repr

def MachineError.message : MachineError → String
  | .notRunning state =>
    let name := state.name
    s!"machine not runnable: {name}"
  | .invalidConfig least most => s!"min_memory {least} exceeds max_memory {most}"
  | .programCounterOverrun pc size => s!"program counter {pc} outside memory (size {size})"
  | .decode pc cause =>
    let cause := cause.message
    s!"at address {pc}: {cause}"
  | .memory cause =>
    let cause := cause.message
    s!"memory error: {cause}"

def MachineError.isInvalidOpcode : MachineError → Bool
  | .decode _ (.invalidOpcode _) => true
  | _ => false

def MachineError.isIllegalAddressingMode : MachineError → Bool
  | .decode _ (.illegalAddressingMode ..) => true
  | _ => false

structure Config where
  minMemory : Count := Memory.leastSize
  policy : Policy := .grow
  maxMemory : Count := Memory.defaultLimit
  trace : Bool := false
  deriving DecidableEq, Repr

structure Machine where
  regs : Registers
  mem : Memory
  state : State
  steps : Count
  input : List Cell
  output : Array Cell
  program : Array Cell
  tracing : Bool
  trace : Array TraceEntry
  deriving DecidableEq, Repr

namespace Machine

def ofMemory (program : Array Cell) (input : List Cell) (mem : Memory) : Machine where
  regs := {}
  mem := mem
  state := .ready
  steps := 0
  input := input
  output := #[]
  program := program
  tracing := false
  trace := #[]

def new (program : Array Cell) (input : List Cell) : Machine :=
  ofMemory program input (Memory.ofProgram program)

/-- The least memory is raised to `Memory.leastSize` before it is compared with the most. -/
def build (program : Array Cell) (input : List Cell) (config : Config) : Except MachineError Machine :=
  let least := max config.minMemory Memory.leastSize
  if config.maxMemory < least then .error (.invalidConfig least config.maxMemory)
  else match Memory.build program least config.policy config.maxMemory with
    | .error e => .error (.memory e)
    | .ok mem => .ok { ofMemory program input mem with tracing := config.trace }

def pushInput (m : Machine) (values : List Cell) : Machine := { m with input := m.input ++ values }

def clearOutput (m : Machine) : Machine := { m with output := #[] }

def drainOutput (m : Machine) : Array Cell × Machine := (m.output, m.clearOutput)

def clearTrace (m : Machine) : Machine := { m with trace := #[] }

def drainTrace (m : Machine) : Array TraceEntry × Machine := (m.trace, m.clearTrace)

def setTrace (m : Machine) (on : Bool) : Machine := { m with tracing := on }

/-- Back to address 0 with empty queues. Memory, relative base, step count and trace stay. -/
def reset (m : Machine) : Machine :=
  { m with regs := m.regs.jump 0, input := [], output := #[], state := .ready }

/-- Everything but the program, the memory's size and the tracing flag starts over. -/
def restart (m : Machine) : Machine :=
  { m with
    regs := {}
    mem := m.mem.restore m.program
    state := .ready
    steps := 0
    input := []
    output := #[]
    trace := #[] }

def isHalted (m : Machine) : Bool := m.state = .halted

def isBlocked (m : Machine) : Bool := m.state = .blocked

def cellAt (m : Machine) (address : Nat) : Cell := m.mem.cells.getD address 0

def cellsIn (m : Machine) (start stop : Nat) : Array Cell := m.mem.cells.extract start stop

def describe (m : Machine) : String :=
  let state := m.state.name
  let steps := m.steps
  let regs := m.regs.describe
  let pending := m.input.length
  let produced := m.output.size
  s!"Machine \x7b state: {state}, steps: {steps}, regs: {regs}, input: {pending}, output: {produced} \x7d"

end Machine

end Intcode
