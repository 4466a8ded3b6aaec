import Intcode.Console.Report
import Intcode.Debugger.Keys
import Intcode.Screen.Draw
import Intcode.Screen.Paint
set_option autoImplicit false

/-!
The command line program. What is read and written here is decided elsewhere.
-/
namespace Intcode.Main

open Console

def patience : Nat := 4611686018427387904

def fileError : IO.Error → FileError
  | .noFileOrDirectory .. => .missing
  | .inappropriateType _ 21 _ => .isDirectory
  | .inappropriateType .. => .notDirectory
  | .invalidArgument .. => .nameTooLong
  | e => .other (toString e)

def readText (path : String) : IO (Except FileError String) := do
  try return decodeText (← IO.FS.readBinFile path)
  catch e => return .error (fileError e)

def writeText (path text : String) : IO (Except FileError Unit) := do
  try return .ok (← IO.FS.writeFile path text)
  catch e => return .error (fileError e)

partial def readBytes (input : IO.FS.Stream) (line : ByteArray) : IO ByteArray := do
  let next ← input.read 1
  if next.isEmpty then return line
  if next.data = #[10] then return line ++ next
  readBytes input (line ++ next)

def readLine (input : IO.FS.Stream) : IO (Except FileError String) := do
  return decodeText (← readBytes input ByteArray.empty)

partial def converse (o : Options) (m : Machine) : IO (Machine × Bool) := do
  match Session.turn o patience m with
  | none => return (m, true)
  | some t =>
    IO.eprint (noticeText o t.notices)
    IO.print (cellText o t.output)
    (← IO.getStdout).flush
    match t.next with
    | .finish failed => return (t.machine, failed)
    | .ask => match ← readLine (← IO.getStdin) with
      | .error e =>
        IO.eprint (noticeText o [.unreadable e])
        return (t.machine, false)
      | .ok line =>
        if line.isEmpty then return (t.machine, false)
        let (m, notices) := Session.feed o t.machine line
        IO.eprint (noticeText o notices)
        converse o m

def run (path : String) (o : Options) : IO UInt32 := do
  let source ← readText path
  let config ← match o.config with
    | none => pure none
    | some name => pure (some (name, ← readText name))
  match Session.prepare o path source config with
  | .error line =>
    IO.eprintln line
    return 1
  | .ok m =>
    let (m, failed) ← converse o m
    IO.eprint (Session.summary m)
    match o.snapshot with
    | none => return if failed then 1 else 0
    | some target =>
      let written ← writeText target m.snapshot
      IO.eprint (Session.snapshotLine target written)
      return if failed || !written.toBool then 1 else 0

def screenSize : IO (Nat × Nat) := do
  let number (name : String) (default : Nat) : IO Nat := do
    return ((← IO.getEnv name).bind String.toNat?).getD default
  return (← number "COLUMNS" 80, ← number "LINES" 24)

/-- Draws, waits for a line of keys, and takes one turn for each of them. -/
partial def debugLoop (d : Debugger) : IO Unit := do
  let (cols, rows) ← screenSize
  IO.print (Screen.paint (Screen.draw d cols rows))
  (← IO.getStdout).flush
  let line ← (← IO.getStdin).getLine
  if line.isEmpty then return
  let typed := line.toList.map fun c => if c = '\n' then '\r' else c
  let d := (Key.decode typed).foldl (fun d k => if d.quitting then d else d.turn (some k)) d
  if d.quitting then return
  debugLoop d

def withProgram (path : String) (act : Array Cell → IO UInt32) : IO UInt32 := do
  match Session.loadProgram path (← readText path) with
  | .ok program => act program
  | .error line =>
    IO.eprintln line
    return 1

end Intcode.Main

open Intcode Intcode.Console in
def main (args : List String) : IO UInt32 := do
  match Command.ofArguments args with
  | .error refusal =>
    IO.eprint (refusalText refusal)
    return 2
  | .ok .overview =>
    IO.print overview
    return 0
  | .ok .version =>
    IO.print versionText
    return 0
  | .ok .usage =>
    IO.print usage
    return 0
  | .ok .selftest =>
    IO.print SelfTest.report
    return if SelfTest.allPassed then 0 else 1
  | .ok (.disasm path) => Intcode.Main.withProgram path fun program => do
    IO.println (Listing.text program)
    return 0
  | .ok (.debug path) => Intcode.Main.withProgram path fun program => do
    IO.print (debugBanner program)
    Intcode.Main.debugLoop (Debugger.new program)
    return 0
  | .ok (.run path o) => Intcode.Main.run path o
