import Intcode.Machine.Step
set_option autoImplicit false

/-!
Running. `Machine.advance` takes steps until the machine stops by itself or has taken as many as it may.
A run with a step budget and a run to the end are two readings of it: to the first a pause is an answer,
to the second it is none, since a machine may never stop.
-/
namespace Intcode

inductive Stop
  | paused
  | blocked
  | halted
  | failed (error : MachineError)
  deriving DecidableEq, Repr

def Stop.result? : Stop → Option (Except MachineError State)
  | .paused => none
  | .blocked => some (.ok .blocked)
  | .halted => some (.ok .halted)
  | .failed e => some (.error e)

namespace Machine

def advance : Nat → Machine → Stop × Machine
  | 0, m => (.paused, m)
  | n + 1, m => match m.step with
    | (.ok (.executed _), m) => advance n m
    | (.ok .blocked, m) => (.blocked, m)
    | (.ok .halted, m) => (.halted, m)
    | (.error e, m) => (.failed e, m)

/-- Queues the input and executes at most `budget` instructions. The answer is the state the machine is
left in; a machine that cannot run keeps its queue. -/
def runLimited (m : Machine) (input : List Cell) (budget : Count) : Except MachineError State × Machine :=
  if m.state.isTerminal then (.error (.notRunning m.state), m)
  else
    let (stop, after) := advance budget.toNat (m.pushInput input)
    (stop.result?.getD (.ok after.state), after)

/-- Queues the input and executes until the machine halts, blocks or fails. There is no answer if that
takes more than `fuel` steps. -/
def run? (m : Machine) (input : List Cell) (fuel : Nat) : Option (Except MachineError State × Machine) :=
  if m.state.isTerminal then some (.error (.notRunning m.state), m)
  else
    let (stop, after) := advance fuel (m.pushInput input)
    stop.result?.map fun result => (result, after)

def Runs (m : Machine) (input : List Cell) (result : Except MachineError State) (after : Machine) : Prop :=
  ∃ fuel, m.run? input fuel = some (result, after)

end Machine

end Intcode
