import Intcode.Console.Arguments
import Intcode.Console.Directory
import Intcode.Machine.Run
import Intcode.Program
import Intcode.Snapshot
set_option autoImplicit false

/-!
Running a program from the command line. A session is a row of turns: the machine runs until it stops,
what it recorded and put out is passed on, and then the session ends or asks for a line of input. Only a
blocked machine in an interactive session asks.
-/
namespace Intcode.Console

inductive Notice
  | trace (entry : TraceEntry)
  | stepLimit
  | machineError (pc : Cell) (error : MachineError)
  | ignored (error : ParseError)
  | unreadable (error : FileError)
  deriving DecidableEq, Repr

def Notice.text (json : Bool) : Notice → String
  | .trace entry => if json then entry.toJson.text else entry.describe
  | .stepLimit => "⚠️  Reached max steps limit. Use --max-steps to increase."
  | .machineError pc error =>
    let cause := error.message
    s!"❌ Machine error at PC={pc}: {cause}"
  | .ignored error =>
    let cause := error.message
    s!"⚠️  Ignoring bad input: {cause}"
  | .unreadable error =>
    let cause := error.message
    s!"❌ Failed to read stdin: {cause}"

def encodeInput (ascii : Bool) (text : String) : Except ParseError (List Cell) :=
  if ascii then .ok (text.toList.map (fun c => Int64.ofNat c.toNat) ++ [10])
  else (Program.parse text).map Array.toList

/-- One value of the output. In character mode what is no ASCII character stands on a line of its own. -/
def outputText (ascii : Bool) (value : Cell) : String :=
  if ascii then
    if 0 ≤ value ∧ value < 128 then String.singleton (Char.ofNat value.toUInt64.toNat)
    else s!"\n{value}\n"
  else s!"{value}\n"

namespace Session

def loadProgram (path : String) (source : Except FileError String) : Except String (Array Cell) :=
  match source with
  | .error e =>
    let cause := e.message
    .error s!"❌ Failed to load {path}: I/O error: {cause}"
  | .ok source => (Program.parse source).mapError fun e =>
    let cause := e.message
    s!"❌ Failed to load {path}: parse error: {cause}"

/-- Reads program, configuration and first input, in this order, and builds the machine. The error is
the line to show. -/
def prepare (o : Options) (path : String) (source : Except FileError String)
    (config : Option (String × Except FileError String)) : Except String Machine := do
  let program ← loadProgram path source
  let config ← match config with
    | none => .ok {}
    | some (name, .error e) =>
      let cause := e.message
      .error s!"❌ Failed to read config {name}: {cause}"
    | some (name, .ok text) => match Config.ofText? text with
      | some config => .ok config
      | none => .error s!"❌ Invalid config {name}: the text is no configuration"
  let config : Config := { config with
    policy := if o.strictMemory then .strict else config.policy
    trace := o.trace || config.trace }
  let input ← match o.input.map (encodeInput o.ascii) with
    | none => .ok []
    | some (.ok values) => .ok values
    | some (.error e) =>
      let cause := e.message
      .error s!"❌ Bad input: {cause}"
  match Machine.build program input config with
  | .ok m => return m
  | .error e =>
    let cause := e.message
    .error s!"❌ Invalid machine configuration: {cause}"

inductive Next
  | ask
  | finish (failed : Bool)
  deriving DecidableEq, Repr

structure Turn where
  output : List Cell
  notices : List Notice
  machine : Machine
  next : Next

def proceed (o : Options) (fuel : Nat) (m : Machine) : Option (Except MachineError State × Machine) :=
  match o.maxSteps with
  | some most => some (m.runLimited [] (most - m.steps))
  | none => m.run? [] fuel

def follow (o : Options) (pc : Cell) : Except MachineError State → List Notice × Next
  | .ok .blocked => ([], if o.interactive then .ask else .finish false)
  | .ok .halted => ([], .finish false)
  | .ok _ => ([.stepLimit], .finish false)
  | .error e => ([.machineError pc e], .finish true)

/-- There is no turn if an unlimited run takes more than `fuel` steps. -/
def turn (o : Options) (fuel : Nat) (m : Machine) : Option Turn :=
  if o.maxSteps.any (· ≤ m.steps) then some ⟨[], [.stepLimit], m, .finish false⟩
  else do
    let (result, after) ← proceed o fuel m
    let (notices, next) := follow o after.regs.pc result
    return {
      output := after.output.toList
      notices := after.trace.toList.map .trace ++ notices
      machine := after.clearTrace.clearOutput
      next }

structure Transcript where
  output : List Cell
  notices : List Notice
  machine : Machine
  failed : Bool

def Transcript.after (output : List Cell) (notices : List Notice) (t : Transcript) : Transcript :=
  { t with output := output ++ t.output, notices := notices ++ t.notices }

def isLineEnd (c : Char) : Bool := c = '\r' || c = '\n'

def stripLine (line : String) : String :=
  String.ofList (line.toList.reverse.dropWhile isLineEnd).reverse

def feed (o : Options) (m : Machine) (line : String) : Machine × List Notice :=
  match encodeInput o.ascii (stripLine line) with
  | .ok values => (m.pushInput values, [])
  | .error e => (m, [.ignored e])

def play (o : Options) (fuel : Nat) : List (Except FileError String) → Machine → Option Transcript
  | lines, m => do
    let t ← turn o fuel m
    match t.next with
    | .finish failed => return ⟨t.output, t.notices, t.machine, failed⟩
    | .ask => match lines with
      | [] => return ⟨t.output, t.notices, t.machine, false⟩
      | .error e :: _ => return ⟨t.output, t.notices ++ [.unreadable e], t.machine, false⟩
      | .ok line :: lines =>
        let (m, notices) := feed o t.machine line
        (play o fuel lines m).map (.after t.output (t.notices ++ notices))

def summary (m : Machine) : String :=
  let steps := m.steps
  let state := m.state.name
  let pc := m.regs.pc
  let base := m.regs.relativeBase
  let waiting := if m.isBlocked then "Waiting for input (use --input or --interactive)\n" else ""
  s!"\n━━━ Result ━━━\nSteps: {steps}\nState: {state}\nPC:    {pc}\nRB:    {base}\n{waiting}"

def snapshotLine (path : String) : Except FileError Unit → String
  | .ok _ => s!"✓ Snapshot saved to {path}\n"
  | .error e =>
    let cause := e.message
    s!"❌ Failed to save snapshot: {cause}\n"

def lines (bytes : ByteArray) : List (Except FileError String) :=
  (bytes.toList.splitBy fun a _ => a ≠ 10).map fun line => decodeText ⟨line.toArray⟩

end Session

end Intcode.Console
