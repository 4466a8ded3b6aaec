import Intcode.Cell
import Intcode.Text.Align
import Intcode.Text.Decimal
set_option autoImplicit false

/-!
The characters of written numbers. A number is written with digits and perhaps a sign, also where it is
filled up with zeros, so a character that is neither is found in none. The same goes for text in a column
and the spaces that fill it up.
-/
namespace Intcode.Text

theorem toList_repr (n : Int) : n.repr.toList = Decimal.chars n := by
  cases n <;> simp [Int.repr, Decimal.chars]

theorem toList_toString (c : Cell) : (toString c).toList = Decimal.chars c.toInt := toList_repr c.toInt

section Absent
variable {c : Char}

theorem not_mem_toDigits (hdigit : c.isDigit = false) (n : Nat) : c ∉ Nat.toDigits 10 n := by
  intro h
  have hc := Nat.isDigit_of_mem_toDigits (by decide) (by decide) h
  simp [hdigit] at hc

theorem not_mem_chars (hdigit : c.isDigit = false) (hsign : c ≠ '-') (n : Int) : c ∉ Decimal.chars n := by
  cases n with
  | ofNat n => exact not_mem_toDigits hdigit n
  | negSucc n => simp [Decimal.chars, hsign, not_mem_toDigits hdigit]

theorem not_mem_repr (hdigit : c.isDigit = false) (hsign : c ≠ '-') (n : Int) : c ∉ n.repr.toList := by
  rw [toList_repr]
  exact not_mem_chars hdigit hsign n

theorem chars_injective : Function.Injective Decimal.chars := by
  have htoDigits : Function.Injective (Nat.toDigits 10) := by
    intro a b h
    have hvalue := congrArg (Nat.ofDigitChars 10 · 0) h
    simpa only [Nat.ofDigitChars_ten_toDigits] using hvalue
  have hsign : ∀ k k', Nat.toDigits 10 k ≠ '-' :: k' := by
    intro k k' h
    exact not_mem_toDigits (c := '-') rfl k (h ▸ List.mem_cons_self)
  intro a b h
  cases a with
  | ofNat k =>
    cases b with
    | ofNat k' => rw [htoDigits h]
    | negSucc k' => exact absurd h (hsign _ _)
  | negSucc k =>
    cases b with
    | ofNat k' => exact absurd h.symm (hsign _ _)
    | negSucc k' => rw [Nat.succ.inj (htoDigits (List.cons.inj h).2)]

theorem not_mem_pushn {filler : Char} (h : c ≠ filler) (n : Nat) : c ∉ ("".pushn filler n).toList := by
  induction n with
  | zero => simp [String.pushn, Nat.repeat]
  | succ n ih =>
    have hpush : "".pushn filler (n + 1) = ("".pushn filler n).push filler := rfl
    rw [hpush, String.toList_push]
    simp [ih, h]

theorem not_mem_padded (hdigit : c.isDigit = false) (hsign : c ≠ '-') (width : Nat) (n : Int) :
    c ∉ (Decimal.padded width n).toList := by
  have hzero : c ≠ '0' := by
    rintro rfl
    cases hdigit
  unfold Decimal.padded
  split <;> simp [not_mem_toDigits hdigit, not_mem_pushn hzero, hsign]

theorem not_mem_alignLeft {s : String} (hspace : c ≠ ' ') (h : c ∉ s.toList) (width : Nat) :
    c ∉ (alignLeft width s).toList := by
  simp [alignLeft, spaces, h, not_mem_pushn hspace]

end Absent

end Intcode.Text
