set_option autoImplicit false

/-!
The two kinds of machine number. A cell is a signed 64-bit word: every value a program computes with.
A count is an unsigned 64-bit word: step counters, growth limits and addresses that are written down.

Sums and products of cells wrap. Two operations do not: the program counter stops at the largest cell
(`Cell.saturatingAdd`), and an address that leaves the range is refused (`Cell.ofInt?`).
-/
namespace Intcode

abbrev Cell := Int64
abbrev Count := UInt64

def Cell.least : Int := -9223372036854775808
def Cell.greatest : Int := 9223372036854775807
def Count.greatest : Int := 18446744073709551615

theorem Cell.least_le_toInt (a : Cell) : Cell.least ≤ a.toInt := a.minValue_le_toInt
theorem Cell.toInt_le_greatest (a : Cell) : a.toInt ≤ Cell.greatest := a.toInt_le

def Cell.ofInt? (n : Int) : Option Cell :=
  if Cell.least ≤ n ∧ n ≤ Cell.greatest then some (Int64.ofInt n) else none

def Cell.saturatingAdd (a b : Cell) : Cell := Int64.ofIntClamp (a.toInt + b.toInt)

def Cell.toAddress? (a : Cell) : Option Count := if a < 0 then none else some a.toUInt64

/-- The power of ten, or the largest cell where the power is out of range. -/
def Cell.tenPow (e : Nat) : Cell := if e < 19 then Int64.ofNat (Nat.pow 10 e) else Int64.maxValue

theorem Cell.ofInt?_toInt (a : Cell) : Cell.ofInt? a.toInt = some a := by
  rw [Cell.ofInt?, if_pos ⟨a.least_le_toInt, a.toInt_le_greatest⟩, Int64.ofInt_toInt]

theorem Cell.toInt_of_ofInt? {n : Int} {a : Cell} (h : Cell.ofInt? n = some a) : a.toInt = n := by
  unfold Cell.ofInt? Cell.least Cell.greatest at h
  split at h
  · cases h
    exact Int64.toInt_ofInt_of_le (by omega) (by omega)
  · cases h

theorem Cell.ofInt?_eq_none_iff {n : Int} :
    Cell.ofInt? n = none ↔ n < Cell.least ∨ Cell.greatest < n := by
  unfold Cell.ofInt?
  split
  · simp only [reduceCtorEq, false_iff]; omega
  · simp only [true_iff]; omega

theorem Cell.toInt_saturatingAdd (a b : Cell) :
    (a.saturatingAdd b).toInt = max Cell.least (min (a.toInt + b.toInt) Cell.greatest) := by
  have lo : Int64.minValue.toInt = Cell.least := rfl
  have hi : Int64.maxValue.toInt = Cell.greatest := rfl
  have le : Cell.least ≤ Cell.greatest := by decide
  unfold Cell.saturatingAdd Int64.ofIntClamp
  split
  · split
    · rw [Int64.toInt_ofIntLE]; omega
    · omega
  · omega

def Count.ofInt? (n : Int) : Option Count :=
  if 0 ≤ n ∧ n ≤ Count.greatest then some (UInt64.ofNat n.toNat) else none

theorem Count.ofInt?_toNat (u : Count) : Count.ofInt? u.toNat = some u := by
  have h := u.toNat_lt
  have h' : (u.toNat : Int) ≤ Count.greatest := by unfold Count.greatest; omega
  rw [Count.ofInt?, if_pos ⟨by omega, h'⟩, Int.toNat_natCast, UInt64.ofNat_toNat]

end Intcode
