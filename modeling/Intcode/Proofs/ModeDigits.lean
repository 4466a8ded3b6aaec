import Intcode.Proofs.InstructionWords
set_option autoImplicit false

/-!
Mode digits of any parameter. The formula divides by a power of ten, in exact numbers. What is computed is
this formula for every parameter whose power of ten is a cell, and so for every parameter of an instruction.
Further out it is not: the power of ten stops at the largest cell, which a word can reach, and its exponent
starts over behind the largest 32-bit number.
-/
namespace Intcode

/-- The decimal digit of weight 10^n, with the sign of the word. -/
def Cell.signedDigit (w : Cell) (n : Nat) : Int := (w.toInt.tdiv (10 ^ n)).tmod 10

section ModeDigits
variable {w : Cell} {param : Count} {n : Nat}

theorem Cell.signedDigit_eq_zero (w : Cell) (hn : 19 ≤ n) : w.signedDigit n = 0 := by
  have hlo := w.least_le_toInt
  have hhi := w.toInt_le_greatest
  unfold Cell.least at hlo
  unfold Cell.greatest at hhi
  have hpow : (10 : Nat) ^ 19 ≤ 10 ^ n := Nat.pow_le_pow_right (by decide) hn
  have hlt : w.toInt.natAbs < 10 ^ n := by omega
  have hquotient : w.toInt.tdiv (10 ^ n) = 0 := by
    apply Int.natAbs_eq_zero.mp
    rw [Int.natAbs_tdiv, Int.natAbs_pow]
    exact Nat.div_eq_of_lt hlt
  rw [Cell.signedDigit, hquotient, Int.zero_tmod]

theorem modeDigit_of_lt (h : modeExponent param < 19) :
    (modeDigit w param).toInt = w.signedDigit (modeExponent param) := by
  rw [toInt_modeDigit_div, Cell.toInt_tenPow h, Cell.signedDigit]

theorem modeDigit_of_le (h : 19 ≤ modeExponent param) : (modeDigit w param).toInt =
    if w.toInt = Cell.greatest then 1 else if w.toInt ≤ -Cell.greatest then -1 else 0 := by
  have hlo := w.least_le_toInt
  have hhi := w.toInt_le_greatest
  have hlargest : (Cell.tenPow (modeExponent param)).toInt = Cell.greatest := by
    rw [Cell.tenPow, if_neg (Nat.not_lt.mpr h)]
    rfl
  rw [toInt_modeDigit_div, hlargest]
  unfold Cell.least at hlo
  unfold Cell.greatest at hhi ⊢
  obtain hneg | hpos := Int.lt_or_le w.toInt 0
  · have hquotient : w.toInt.tdiv 9223372036854775807 = -(-w.toInt / 9223372036854775807) := by
      rw [← Int.tdiv_eq_ediv_of_nonneg (by omega), Int.neg_tdiv, Int.neg_neg]
    rw [hquotient, Int.neg_tmod, Int.tmod_eq_emod_of_nonneg (by omega)]
    split
    · omega
    · split <;> omega
  · rw [Int.tdiv_eq_ediv_of_nonneg hpos, Int.tmod_eq_emod_of_nonneg (by omega)]
    split
    · omega
    · split <;> omega

end ModeDigits

/-- The digit that is computed is the one of the formula for the parameters below 17. The formula gives zero
for all others, and there the two agree where the digit that the exponent stands for is zero, or, if its
power of ten is no cell, where the word is not at an end of the range. -/
theorem modeDigit_eq_formula_iff (w : Cell) (param : Count) :
    ((modeDigit w param).toInt = w.signedDigit (param.toNat + 2) ↔
      param.toNat < 17 ∨
        (modeExponent param < 19 ∧ w.signedDigit (modeExponent param) = 0) ∨
        (19 ≤ modeExponent param ∧ -Cell.greatest < w.toInt ∧ w.toInt < Cell.greatest)) ∧
    (17 ≤ param.toNat → w.signedDigit (param.toNat + 2) = 0) := by
  have hzero (h : 17 ≤ param.toNat) : w.signedDigit (param.toNat + 2) = 0 :=
    w.signedDigit_eq_zero (by omega)
  refine ⟨?_, hzero⟩
  by_cases hparam : param.toNat < 17
  · have hexponent : modeExponent param = param.toNat + 2 := by
      rw [modeExponent]
      omega
    rw [modeDigit_of_lt (by omega), hexponent]
    exact iff_of_true rfl (.inl hparam)
  · rw [hzero (by omega)]
    obtain hexact | hover := Nat.lt_or_ge (modeExponent param) 19
    · rw [modeDigit_of_lt hexact]
      simp [hparam, hexact, Nat.not_le.mpr hexact]
    · have hhi := w.toInt_le_greatest
      rw [modeDigit_of_le hover]
      simp only [hparam, hover, Nat.not_lt.mpr hover, false_and, true_and, false_or]
      unfold Cell.greatest at hhi ⊢
      split
      · omega
      · split <;> omega

/-- The largest cell, divided by the largest cell. And a parameter whose exponent has started over. -/
theorem modeDigit_ne_formula :
    ((modeDigit 9223372036854775807 17).toInt = 1 ∧
      (9223372036854775807 : Cell).signedDigit ((17 : Count).toNat + 2) = 0) ∧
    (modeDigit 21201 4294967296).toInt = 2 ∧
      (21201 : Cell).signedDigit ((4294967296 : Count).toNat + 2) = 0 := by
  refine ⟨⟨by decide +kernel, ?_⟩, by decide +kernel, ?_⟩
  · exact Cell.signedDigit_eq_zero _ (by decide)
  · exact Cell.signedDigit_eq_zero _ (by decide)

end Intcode
