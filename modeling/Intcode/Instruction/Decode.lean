import Intcode.Instruction.Basic
set_option autoImplicit false

/-!
Instruction words. The two low decimal digits name the opcode, and the digit of weight 10^(k+2) the
mode of parameter k. Division truncates, so the digits of a negative word are negative and name
nothing. Digits past the last parameter are not looked at.
-/
namespace Intcode

inductive DecodeError
  | invalidOpcode (word : Cell)
  | illegalAddressingMode (param : Nat) (digit : Cell) (access : Access)
  | parameterOutOfRange (param arity : Nat)
  deriving DecidableEq, Repr

def DecodeError.message : DecodeError → String
  | .invalidOpcode word => s!"invalid opcode in instruction word {word}"
  | .illegalAddressingMode param digit access =>
    let verb := access.verb
    s!"illegal {verb} addressing mode {digit} for parameter {param}"
  | .parameterOutOfRange param arity =>
    s!"parameter {param} out of range for instruction with {arity} parameters"

/-- The mode digit of a parameter. The exponent is a 32-bit number and wraps, as in a build without overflow
checks; the power of ten stops at the largest cell. -/
def modeDigit (word : Cell) (param : Count) : Cell :=
  word / Cell.tenPow (param.toUInt32 + 2).toNat % 10

def paramMode (op : Opcode) (word : Cell) (param : Nat) : Except DecodeError Mode :=
  let digit := modeDigit word (UInt64.ofNat param)
  let access := op.access param
  match Mode.ofDigit? digit with
  | none => .error (.illegalAddressingMode param digit access)
  | some mode =>
    if mode = .immediate ∧ access = .write then .error (.illegalAddressingMode param digit access)
    else .ok mode

def decode (word : Cell) : Except DecodeError Instruction :=
  match Opcode.ofCode? (word % 100) with
  | none => .error (.invalidOpcode word)
  | some op => do
    let modes ← (List.range op.arity).mapM (paramMode op word)
    return ⟨op, modes⟩

def encodeModes : Nat → List Mode → Cell
  | _, [] => 0
  | k, m :: ms => m.digit * Cell.tenPow (k + 2) + encodeModes (k + 1) ms

/-- Modes past the last parameter are dropped, and missing ones count as positional. -/
def encode (op : Opcode) (modes : List Mode) : Cell :=
  op.code + encodeModes 0 (modes.take op.arity)

def Instruction.mode (i : Instruction) (param : Nat) : Except DecodeError Mode :=
  if param < i.opcode.arity then .ok (i.modeAt param)
  else .error (.parameterOutOfRange param i.opcode.arity)

end Intcode
