import Intcode.Cell
set_option autoImplicit false

/-!
Memory: a row of cells that reads as zero past its end. Under `grow` a write past the end extends the
row, zero-filled, as far as the limit; under `strict` every access past the end is an error. No row is
longer than `Memory.ceiling`.
-/
namespace Intcode

inductive Policy
  | grow
  | strict
  deriving DecidableEq, Repr

def Policy.all : List Policy := [.grow, .strict]

def Policy.name : Policy → String
  | .grow => "Grow"
  | .strict => "Strict"

def Policy.keyword : Policy → String
  | .grow => "grow"
  | .strict => "strict"

inductive MemoryError
  | negativeAddress (address : Cell)
  | addressOverflow (base offset : Cell)
  | outOfRange (address size : Nat)
  | limitExceeded (address : Nat) (limit : Count)
  | allocationFailed (cells : Nat)
  deriving DecidableEq, Repr

def MemoryError.message : MemoryError → String
  | .negativeAddress address => s!"negative memory address {address}"
  | .addressOverflow base offset => s!"relative address overflow (base {base}, offset {offset})"
  | .outOfRange address size =>
    let last := size - 1
    s!"memory address {address} out of range (0-{last})"
  | .limitExceeded address limit => s!"memory address {address} exceeds growth limit {limit}"
  | .allocationFailed cells => s!"cannot allocate {cells} memory cells"

structure Memory where
  cells : Array Cell
  policy : Policy
  limit : Count
  deriving DecidableEq, Repr

namespace Memory

/-- The most cells that can be allocated: eight bytes each, in less than 2^63 bytes. -/
def ceiling : Nat := 1152921504606846975

def leastSize : Count := 8192
def defaultLimit : Count := 16777216

def size (m : Memory) : Nat := m.cells.size

def image (program : Array Cell) (least : Nat) : Array Cell :=
  program ++ Array.replicate (least - program.size) 0

theorem size_image (program : Array Cell) (least : Nat) :
    (image program least).size = max program.size least := by
  simp [image]; omega

/-- The limit is never below the program's own length. -/
def build (program : Array Cell) (least : Count) (policy : Policy) (limit : Count) :
    Except MemoryError Memory :=
  let size := max program.size least.toNat
  if ceiling < size then .error (.allocationFailed size)
  else .ok ⟨image program least.toNat, policy, max limit (UInt64.ofNat program.size)⟩

def ofProgram (program : Array Cell) : Memory :=
  ⟨image program leastSize.toNat, .grow, max defaultLimit (UInt64.ofNat program.size)⟩

def read (m : Memory) (address : Nat) : Except MemoryError Cell :=
  match m.cells[address]? with
  | some value => .ok value
  | none => match m.policy with
    | .grow =>
      if address < m.limit.toNat then .ok 0 else .error (.limitExceeded address m.limit)
    | .strict => .error (.outOfRange address m.size)

def checkWrite (m : Memory) (address : Nat) : Except MemoryError Unit :=
  if address < m.size then .ok ()
  else match m.policy with
    | .grow =>
      if address < m.limit.toNat then
        if address + 1 ≤ ceiling then .ok () else .error (.allocationFailed (address + 1))
      else .error (.limitExceeded address m.limit)
    | .strict => .error (.outOfRange address m.size)

def store (m : Memory) (address : Nat) (value : Cell) : Memory :=
  { m with cells :=
      (m.cells ++ Array.replicate (address + 1 - m.cells.size) 0).setIfInBounds address value }

theorem size_store (m : Memory) (address : Nat) (value : Cell) :
    (m.store address value).size = max m.size (address + 1) := by
  simp [store, size]; omega

def write (m : Memory) (address : Nat) (value : Cell) : Except MemoryError Memory := do
  m.checkWrite address
  return m.store address value

/-- Puts a program back, with zeros after it; the row never gets shorter. -/
def restore (m : Memory) (program : Array Cell) : Memory :=
  { m with cells := image program m.cells.size }

theorem size_restore (m : Memory) (program : Array Cell) :
    (m.restore program).size = max program.size m.size := size_image ..

def nonzero (m : Memory) : List (Nat × Cell) :=
  (m.cells.toList.zipIdx.filter fun p => p.1 ≠ 0).map fun p => (p.2, p.1)

def describe (m : Memory) : String :=
  let used := m.nonzero.length
  let total := m.size
  let policy := m.policy.name
  s!"Memory \x7b non_zero_cells: {used}, total_cells: {total}, policy: {policy} \x7d"

end Memory

end Intcode
