import Intcode.Listing
import Intcode.Machine.Step
set_option autoImplicit false

/-!
The debugger: a machine with breakpoints, a log of everything it has put out, and a status line. What
the machine puts out is moved to the log after every attempted step.
-/
namespace Intcode

/-- Breakpoints are kept in ascending order, each once. -/
structure Debugger where
  machine : Machine
  breakpoints : List Cell
  running : Bool
  quitting : Bool
  status : String
  scroll : Nat
  typing : Bool
  buffer : List Char
  log : Array Cell

namespace Debugger

def new (program : Array Cell) : Debugger where
  machine := Machine.new program []
  breakpoints := []
  running := false
  quitting := false
  status := "Ready. Press 's' to step, 'r' to run, 'i' to enter input, 'q' to quit."
  scroll := 0
  typing := false
  buffer := []
  log := #[]

def pc (d : Debugger) : Cell := d.machine.regs.pc

def insertSorted (a : Cell) : List Cell → List Cell
  | [] => [a]
  | b :: rest => if a < b then a :: b :: rest else if a = b then b :: rest else b :: insertSorted a rest

def addBreakpoint (d : Debugger) (address : Cell) : Debugger :=
  { d with breakpoints := insertSorted address d.breakpoints }

def instructionText (m : Machine) : String :=
  if m.regs.pc < 0 then "" else (Listing.lineAt m.mem.cells m.regs.pc.toUInt64.toNat).text

def stepStatus (pc : Cell) (text : String) (steps : Count) : Except MachineError Step → String
  | .ok (.executed _) =>
    let pc := Text.Decimal.padded 4 pc.toInt
    s!"PC={pc}: {text}"
  | .ok .blocked => "Blocked on input. Press 'i' to enter values."
  | .ok .halted => s!"Halted after {steps} steps"
  | .error e =>
    let cause := e.message
    s!"Error: {cause}"

def goesOn : Except MachineError Step → Bool
  | .ok (.executed _) => true
  | _ => false

def step (d : Debugger) : Debugger :=
  if d.machine.state.isTerminal then
    let state := d.machine.state.name
    { d with status := s!"Machine stopped: {state}", running := false }
  else
    let (result, machine) := d.machine.step
    { d with
      machine := machine.clearOutput
      status := stepStatus d.pc (instructionText d.machine) machine.steps result
      running := d.running && goesOn result
      log := d.log ++ machine.output }

/-- Starts running. A breakpoint the machine is sitting on does not hold it. -/
def run (d : Debugger) : Debugger :=
  let d := { d with running := true, status := "Running..." }
  if d.pc ∈ d.breakpoints then d.step else d

/-- One beat of a run: a step, unless the machine is done or has come to a breakpoint. -/
def tick (d : Debugger) : Debugger :=
  if !d.running then d
  else if d.machine.state.isTerminal then
    let steps := d.machine.steps
    { d with running := false, status := s!"Stopped after {steps} steps" }
  else if d.pc ∈ d.breakpoints then
    let pc := d.pc
    { d with running := false, status := s!"Breakpoint at PC={pc}" }
  else d.step

def toggleBreakpoint (d : Debugger) : Debugger :=
  let pc := d.pc
  if pc ∈ d.breakpoints then
    { d with breakpoints := d.breakpoints.erase pc, status := s!"Removed breakpoint at PC={pc}" }
  else { d.addBreakpoint pc with status := s!"Set breakpoint at PC={pc}" }

def pause (d : Debugger) : Debugger := { d with running := false }

def type (d : Debugger) (text : List Char) : Debugger :=
  { d with typing := true, buffer := d.buffer ++ text }

def clearBuffer (d : Debugger) : Debugger := { d with buffer := [] }

def submit (d : Debugger) : Debugger :=
  match Program.parse (String.ofList d.buffer) with
  | .ok values =>
    let count := values.size
    { d with
      machine := d.machine.pushInput values.toList
      status := s!"Queued {count} value(s)"
      buffer := []
      typing := false }
  | .error e =>
    let cause := e.message
    { d with status := s!"Bad input: {cause}" }

def reset (d : Debugger) : Debugger :=
  { d with machine := d.machine.restart, log := #[], running := false, status := "Reset. Ready." }

def setPc (d : Debugger) (pc : Cell) : Debugger :=
  { d with machine := { d.machine with regs := d.machine.regs.jump pc } }

end Debugger

end Intcode
