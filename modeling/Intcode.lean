import Intcode.Cell
import Intcode.Text.Align
import Intcode.Text.Blank
import Intcode.Text.Decimal
import Intcode.Text.Ranges
import Intcode.Text.Marks
import Intcode.Text.Printable
import Intcode.Text.Quoted
import Intcode.Text.Width
import Intcode.Instruction.Basic
import Intcode.Instruction.Decode
import Intcode.Program
import Intcode.Memory
import Intcode.Registers
import Intcode.Trace
import Intcode.Machine.Basic
import Intcode.Machine.Step
import Intcode.Machine.Run
import Intcode.Json.Basic
import Intcode.Json.Reader
import Intcode.Json.Record
import Intcode.Snapshot
import Intcode.Listing
import Intcode.Load
import Intcode.Keyboard
import Intcode.Debugger.Basic
import Intcode.Debugger.Window
import Intcode.Debugger.Keys
import Intcode.Screen.Picture
import Intcode.Screen.Wrap
import Intcode.Screen.Draw
import Intcode.Console.Path
import Intcode.Console.Directory
import Intcode.Console.Arguments
import Intcode.Console.Session
import Intcode.Console.SelfTest
import Intcode.Console.Report
import Intcode.Screen.Paint
import Intcode.Main
import Intcode.Proofs.Fallible
import Intcode.Proofs.Step
import Intcode.Proofs.Run
import Intcode.Proofs.Resumption
import Intcode.Proofs.Decode
import Intcode.Proofs.Operands
import Intcode.Proofs.InstructionTable
import Intcode.Proofs.Failure
import Intcode.Proofs.Course
import Intcode.Proofs.Network
import Intcode.Proofs.Budget
import Intcode.Proofs.Calls
import Intcode.Proofs.Lockstep
import Intcode.Proofs.Twins
import Intcode.Proofs.Policy
import Intcode.Proofs.Growth
import Intcode.Proofs.Restart
import Intcode.Proofs.JsonText
import Intcode.Proofs.Snapshot
import Intcode.Proofs.Omission
import Intcode.Proofs.Tracing
import Intcode.Proofs.History
import Intcode.Proofs.Queues
import Intcode.Proofs.TraceRecord
import Intcode.Proofs.MemorySize
import Intcode.Proofs.Tokens
import Intcode.Proofs.Literals
import Intcode.Proofs.ProgramText
import Intcode.Proofs.Turns
import Intcode.Proofs.Interaction
import Intcode.Proofs.StateFlag
import Intcode.Proofs.NumberText
import Intcode.Proofs.Sweep
import Intcode.Proofs.ListingText
import Intcode.Proofs.Attempts
import Intcode.Proofs.EventLoop
import Intcode.Proofs.Observation
import Intcode.Proofs.Breakpoints
import Intcode.Proofs.InstructionWords
import Intcode.Proofs.AssemblyText
import Intcode.Proofs.MemoryStore
import Intcode.Proofs.Disassembly
import Intcode.Proofs.ModeDigits
import Intcode.Proofs.Window
import Intcode.Proofs.Guards
import Intcode.Proofs.Attribution
import Intcode.Proofs.ImmediateOperands
