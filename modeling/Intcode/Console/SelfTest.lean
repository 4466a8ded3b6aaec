import Intcode.Machine.Run
set_option autoImplicit false

/-!
The built-in self-test: five small programs with known results.
-/
namespace Intcode.Console.SelfTest

def fuel : Nat := 10000

def after (m : Machine) (input : List Cell) (check : Except MachineError State → Machine → Bool) : Bool :=
  match m.run? input fuel with
  | some (result, m) => check result m
  | none => false

def endedWith (state : State) : Except MachineError State → Bool
  | .ok s => s = state
  | .error _ => false

def quine : Array Cell := #[109, 1, 204, -1, 1001, 100, 1, 100, 1008, 100, 16, 101, 1006, 101, 0, 99]

def checks : List (String × Bool) := [
  ("Positional add",
    after (.new #[1, 0, 0, 0, 99] []) [] fun r m => r.toBool && m.cellAt 0 = 2),
  ("Self-reproducing program",
    after (.new quine []) [] fun r m => r.toBool && m.output = quine),
  ("64-bit multiply",
    after (.new #[1102, 34915192, 34915192, 7, 4, 7, 99, 0] []) []
      fun r m => r.toBool && m.output = #[1219070632396864]),
  ("Blocking input resumes",
    after (.new #[3, 9, 1001, 9, 10, 9, 4, 9, 99, 0] []) [] fun r m =>
      endedWith .blocked r && m.regs.pc = 0 &&
        after m [5] fun r m => endedWith .halted r && m.output = #[15]),
  ("Invalid opcode reported",
    after (.new #[42] []) [] fun r _ => match r with
      | .error e => e.isInvalidOpcode
      | .ok _ => false)]

def line : String × Bool → String
  | (name, true) => s!"{name}... ✓\n"
  | (name, false) => s!"{name}... ✗\n"

def allPassed : Bool := checks.all Prod.snd

def report : String :=
  let passed := (checks.filter Prod.snd).length
  let failed := checks.length - passed
  let lines := String.join (checks.map line)
  let verdict := if allPassed then "✓ All tests passed!\n" else ""
  s!"━━━ Intcode VM Self-Test ━━━\n\n{lines}\n━━━━━━━━━━━━━━━━━━━━━━━━━━━━━━\nResults: {passed} passed, {failed} failed\n{verdict}"

end Intcode.Console.SelfTest
