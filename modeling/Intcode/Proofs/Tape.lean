import Intcode.Machine.Step
import Intcode.Proofs.Fallible
set_option autoImplicit false

/-!
Memory seen as a tape without end, zero wherever there is no cell. Which addresses can be read and
written is a matter of the row's size, its policy and its limit; what is found there is the tape's, and a
write changes the tape in one place.
-/
namespace Intcode

namespace Memory

def tape (m : Memory) (a : Nat) : Cell := m.cells.getD a 0

def Readable (m : Memory) (a : Nat) : Prop := a < m.size ∨ m.policy = .grow ∧ a < m.limit.toNat

def Writable (m : Memory) (a : Nat) : Prop := m.Readable a ∧ (a < m.size ∨ a + 1 ≤ ceiling)

def refusal (m : Memory) (a : Nat) : MemoryError :=
  match m.policy with
  | .grow => .limitExceeded a m.limit
  | .strict => .outOfRange a m.size

instance (m : Memory) (a : Nat) : Decidable (m.Readable a) := inferInstanceAs (Decidable (_ ∨ _))
instance (m : Memory) (a : Nat) : Decidable (m.Writable a) := inferInstanceAs (Decidable (_ ∧ _))

variable {m : Memory} {a : Nat}

theorem tape_eq_getElem (h : a < m.size) : m.cells[a]? = some (m.tape a) := by
  have h' : a < m.cells.size := h
  simp [tape, h']

theorem tape_eq_zero (h : m.size ≤ a) : m.tape a = 0 := by
  have h' : ¬ a < m.cells.size := Nat.not_lt.mpr h
  simp [tape, h']

theorem read_eq_ok_iff {v : Cell} : m.read a = .ok v ↔ m.Readable a ∧ v = m.tape a := by
  unfold read Readable
  by_cases h : a < m.size
  · simp only [tape_eq_getElem h, Except.ok.injEq, h, true_or, true_and]
    exact eq_comm
  · have hnone : m.cells[a]? = none := by simpa [size] using h
    rw [hnone, tape_eq_zero (Nat.not_lt.mp h)]
    cases hp : m.policy with
    | strict => simp [h]
    | grow =>
      by_cases hl : a < m.limit.toNat
      · simp only [h, hl, if_true, Except.ok.injEq]
        simp [eq_comm]
      · simp [h, hl]

theorem read_eq : m.read a = if m.Readable a then .ok (m.tape a) else .error (m.refusal a) := by
  by_cases hr : m.Readable a
  · rw [if_pos hr]
    exact read_eq_ok_iff.mpr ⟨hr, rfl⟩
  · have hnone : m.cells[a]? = none := by
      have hout : ¬ a < m.size := fun h => hr (.inl h)
      simpa [size] using hout
    rw [if_neg hr, read, hnone, refusal]
    cases hp : m.policy with
    | strict => rfl
    | grow =>
      have hover : ¬ a < m.limit.toNat := fun h => hr (.inr ⟨hp, h⟩)
      simp only [hover, if_false]

theorem checkWrite_eq_ok_iff {u : Unit} : m.checkWrite a = .ok u ↔ m.Writable a := by
  unfold checkWrite Writable Readable
  by_cases h : a < m.size
  · simp [h]
  · cases hp : m.policy with
    | strict => simp [h]
    | grow =>
      by_cases hl : a < m.limit.toNat
      · by_cases hc : a + 1 ≤ ceiling <;> simp [h, hl, hc]
      · simp [h, hl]

theorem writable_iff : m.Writable a ↔
    a < m.size ∨ m.policy = .grow ∧ a < m.limit.toNat ∧ a + 1 ≤ ceiling := by
  unfold Writable Readable
  constructor
  · rintro ⟨hin | ⟨hg, hl⟩, hsize | hroom⟩
    · exact .inl hin
    · exact .inl hin
    · exact .inl hsize
    · exact .inr ⟨hg, hl, hroom⟩
  · rintro (hin | ⟨hg, hl, hroom⟩)
    · exact ⟨.inl hin, .inl hin⟩
    · exact ⟨.inr ⟨hg, hl⟩, .inr hroom⟩

theorem write_eq_ok (hw : m.Writable a) (v : Cell) : m.write a v = .ok (m.store a v) := by
  have hgranted : m.checkWrite a = .ok () := checkWrite_eq_ok_iff.mpr hw
  rw [write, hgranted]
  rfl

theorem write_eq_error (hw : ¬ m.Writable a) : ∃ e, ∀ v, m.write a v = .error e := by
  cases hc : m.checkWrite a with
  | ok u => exact absurd (checkWrite_eq_ok_iff.mp hc) hw
  | error e =>
    refine ⟨e, fun v => ?_⟩
    rw [write, hc]
    rfl

theorem tape_store (v : Cell) (b : Nat) : (m.store a v).tape b = if b = a then v else m.tape b := by
  simp only [tape, store, Array.getD_eq_getD_getElem?, Array.getElem?_setIfInBounds]
  by_cases hb : a = b
  · subst hb
    have hin : a < (m.cells ++ Array.replicate (a + 1 - m.cells.size) (0 : Cell)).size := by
      simp only [Array.size_append, Array.size_replicate]
      omega
    simp only [hin, if_true, Option.getD_some]
  · simp only [hb, if_false, Ne.symm hb]
    by_cases hs : b < m.cells.size
    · simp [Array.getElem?_append_left hs]
    · rw [Array.getElem?_append_right (Nat.not_lt.mp hs), Array.getElem?_eq_none (Nat.not_lt.mp hs),
        Array.getElem?_replicate]
      split <;> rfl

theorem ext_tape {m' : Memory} (hsize : m.size = m'.size) (htape : ∀ b, m.tape b = m'.tape b)
    (hpolicy : m.policy = m'.policy) (hlimit : m.limit = m'.limit) : m = m' := by
  have hcells : m.cells = m'.cells := by
    apply Array.ext hsize
    intro b h h'
    have hb := htape b
    simpa [tape, h, h'] using hb
  cases m
  cases m'
  simp_all

/-- The memory whose tape holds `v` at `a` and is else the same. Its row reaches to `a`, zero-filled. -/
def put (m : Memory) (a : Nat) (v : Cell) : Memory :=
  { m with cells := Array.ofFn fun b : Fin (max m.size (a + 1)) => if b.val = a then v else m.tape b }

theorem store_eq_put (v : Cell) : m.store a v = m.put a v := by
  have hsize : (m.put a v).size = max m.size (a + 1) := by simp [put, size]
  apply ext_tape
  · rw [size_store, hsize]
  · intro b
    rw [tape_store]
    by_cases hb : b < (m.put a v).size
    · have hb' : b < max m.size (a + 1) := hsize ▸ hb
      simp [tape, put, hb']
    · rw [tape_eq_zero (Nat.not_lt.mp hb), if_neg (by omega), tape_eq_zero (by omega)]
  · rfl
  · rfl

end Memory

end Intcode
