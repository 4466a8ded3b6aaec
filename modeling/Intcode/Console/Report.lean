import Intcode.Console.SelfTest
import Intcode.Console.Session
import Intcode.Listing
set_option autoImplicit false

/-!
A command from its arguments to its exit code, with the files it finds and leaves. The interactive
debugger is the one command that is not finished here.
-/
namespace Intcode.Console

structure Report where
  code : Nat
  stdout : String
  stderr : String
  directory : Directory

def overview : String :=
  "Intcode VM v0.1.0\nA resumable Intcode virtual machine\n\nUse --help for available commands\n"

def versionText : String := "intcode-vm 0.1.0\n"

def usage : String :=
  "A resumable Intcode virtual machine\n\n" ++
  "Usage: intcode-vm [COMMAND]\n\nCommands:\n" ++
  "  run       Run a program until it halts or runs out of input\n" ++
  "  debug     Interactive debugger\n" ++
  "  disasm    Disassemble a program to readable text\n" ++
  "  selftest  Run the built-in self-test\n" ++
  "  help      Print this message\n"

def refusalText (refusal : Refusal) : String :=
  let cause := refusal.message
  s!"error: {cause}\n"

def debugBanner (program : Array Cell) : String :=
  let count := program.size
  s!"🔍 Loaded {count} cells\n🚀 Launching debugger...\n"

def noticeText (o : Options) (notices : List Notice) : String :=
  String.join (notices.map fun n => n.text o.json ++ "\n")

def cellText (o : Options) (values : List Cell) : String :=
  String.join (values.map (outputText o.ascii))

def closeSession (o : Options) (d : Directory) (t : Session.Transcript) : Report :=
  let stdout := cellText o t.output
  let stderr := noticeText o t.notices ++ Session.summary t.machine
  match o.snapshot with
  | none => ⟨if t.failed then 1 else 0, stdout, stderr, d⟩
  | some path => match d.write path t.machine.snapshot.toUTF8 with
    | .ok d => ⟨if t.failed then 1 else 0, stdout, stderr ++ Session.snapshotLine path (.ok ()), d⟩
    | .error e => ⟨1, stdout, stderr ++ Session.snapshotLine path (.error e), d⟩

def runCommand (path : String) (o : Options) (d : Directory) (stdin : ByteArray) (fuel : Nat) :
    Option Report :=
  let config := o.config.map fun name => (name, d.readText name)
  match Session.prepare o path (d.readText path) config with
  | .error line => some ⟨1, "", line ++ "\n", d⟩
  | .ok m => (Session.play o fuel (Session.lines stdin) m).map (closeSession o d)

/-- The report of a command line. There is none if a program runs longer than the fuel lasts. -/
def execute (args : List String) (d : Directory) (stdin : ByteArray) (fuel : Nat) : Option Report :=
  match Command.ofArguments args with
  | .error refusal => some ⟨2, "", refusalText refusal, d⟩
  | .ok .overview => some ⟨0, overview, "", d⟩
  | .ok .version => some ⟨0, versionText, "", d⟩
  | .ok .usage => some ⟨0, usage, "", d⟩
  | .ok .selftest => some ⟨if SelfTest.allPassed then 0 else 1, SelfTest.report, "", d⟩
  | .ok (.disasm path) => match Session.loadProgram path (d.readText path) with
    | .error line => some ⟨1, "", line ++ "\n", d⟩
    | .ok program => some ⟨0, Listing.text program ++ "\n", "", d⟩
  | .ok (.debug path) => match Session.loadProgram path (d.readText path) with
    | .error line => some ⟨1, "", line ++ "\n", d⟩
    | .ok program => some ⟨0, debugBanner program, "", d⟩
  | .ok (.run path o) => runCommand path o d stdin fuel

end Intcode.Console
