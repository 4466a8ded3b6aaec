import Intcode.Cell
set_option autoImplicit false

/-!
The instruction set: ten opcodes, three addressing modes, and what each opcode asks of its parameters.
-/
namespace Intcode

/-- How a parameter names its operand: by address, by value, or by offset from the relative base. -/
inductive Mode
  | position
  | immediate
  | relative
  deriving DecidableEq, Repr, Inhabited

def Mode.ofDigit? (d : Cell) : Option Mode :=
  if d = 0 then some .position else if d = 1 then some .immediate else if d = 2 then some .relative
  else none

def Mode.digit : Mode → Cell
  | .position => 0
  | .immediate => 1
  | .relative => 2

@[simp] theorem Mode.ofDigit?_digit (m : Mode) : Mode.ofDigit? m.digit = some m := by
  cases m <;> decide

theorem Mode.digit_of_ofDigit? {d : Cell} {m : Mode} (h : Mode.ofDigit? d = some m) : m.digit = d := by
  unfold Mode.ofDigit? at h
  split at h
  · cases h; simp_all [Mode.digit]
  split at h
  · cases h; simp_all [Mode.digit]
  split at h
  · cases h; simp_all [Mode.digit]
  · cases h

def Mode.adjective : Mode → String
  | .position => "positional"
  | .immediate => "immediate"
  | .relative => "relative"

def Mode.all : List Mode := [.position, .immediate, .relative]

def Mode.name : Mode → String
  | .position => "Position"
  | .immediate => "Immediate"
  | .relative => "Relative"

inductive Access
  | read
  | write
  deriving DecidableEq, Repr

def Access.all : List Access := [.read, .write]

def Access.name : Access → String
  | .read => "Read"
  | .write => "Write"

def Access.verb : Access → String
  | .read => "read"
  | .write => "write"

inductive Opcode
  | add
  | multiply
  | input
  | output
  | jumpIfTrue
  | jumpIfFalse
  | lessThan
  | equals
  | adjustRelativeBase
  | halt
  deriving DecidableEq, Repr

def Opcode.all : List Opcode :=
  [.add, .multiply, .input, .output, .jumpIfTrue, .jumpIfFalse, .lessThan, .equals,
    .adjustRelativeBase, .halt]

def Opcode.code : Opcode → Cell
  | .add => 1
  | .multiply => 2
  | .input => 3
  | .output => 4
  | .jumpIfTrue => 5
  | .jumpIfFalse => 6
  | .lessThan => 7
  | .equals => 8
  | .adjustRelativeBase => 9
  | .halt => 99

def Opcode.ofCode? (code : Cell) : Option Opcode := Opcode.all.find? fun op => op.code = code

@[simp] theorem Opcode.ofCode?_code (op : Opcode) : Opcode.ofCode? op.code = some op := by
  cases op <;> decide

theorem Opcode.code_of_ofCode? {c : Cell} {op : Opcode} (h : Opcode.ofCode? c = some op) :
    op.code = c := by
  simpa using List.find?_some h

def Opcode.name : Opcode → String
  | .add => "Add"
  | .multiply => "Multiply"
  | .input => "Input"
  | .output => "Output"
  | .jumpIfTrue => "JumpIfTrue"
  | .jumpIfFalse => "JumpIfFalse"
  | .lessThan => "LessThan"
  | .equals => "Equals"
  | .adjustRelativeBase => "AdjustRelativeBase"
  | .halt => "Halt"

def Opcode.mnemonic : Opcode → String
  | .add => "ADD"
  | .multiply => "MUL"
  | .input => "INP"
  | .output => "OUT"
  | .jumpIfTrue => "JNZ"
  | .jumpIfFalse => "JZ"
  | .lessThan => "LESS"
  | .equals => "EQ"
  | .adjustRelativeBase => "ARB"
  | .halt => "HALT"

def Opcode.arity : Opcode → Nat
  | .add | .multiply | .lessThan | .equals => 3
  | .jumpIfTrue | .jumpIfFalse => 2
  | .input | .output | .adjustRelativeBase => 1
  | .halt => 0

theorem Opcode.arity_le (op : Opcode) : op.arity ≤ 3 := by cases op <;> decide

def Opcode.width (op : Opcode) : Nat := op.arity + 1

def Opcode.target? : Opcode → Option Nat
  | .add | .multiply | .lessThan | .equals => some 2
  | .input => some 0
  | _ => none

theorem Opcode.target?_lt {op : Opcode} {k : Nat} (h : op.target? = some k) : k < op.arity := by
  cases op <;> simp_all [target?, arity] <;> omega

def Opcode.access (op : Opcode) (param : Nat) : Access :=
  if op.target? = some param then .write else .read

structure Instruction where
  opcode : Opcode
  modes : List Mode
  deriving DecidableEq, Repr

def Instruction.width (i : Instruction) : Nat := i.opcode.width

/-- The mode of a parameter; parameters the opcode does not have count as positional. -/
def Instruction.modeAt (i : Instruction) (param : Nat) : Mode := i.modes.getD param .position

end Intcode
