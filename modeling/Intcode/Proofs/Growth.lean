import Intcode.Proofs.Twins
set_option autoImplicit false

/-!
How much of a growing memory's size can be seen. As long as the row is within its limit, reads and writes
do not depend on where it ends: what is not there reads as zero and comes into being when it is written.
Two machines whose memories differ by zeros at the end are told apart at one place only, the bound on the
program counter: where the shorter row has ended, the longer one has ended too, or holds a zero, which is
no instruction.
-/
namespace Intcode

namespace Memory

variable {m b a : Memory} {n : Nat} {program : Array Cell}

structure Roomy (m : Memory) : Prop where
  grow : m.policy = .grow
  below : m.size ≤ m.limit.toNat
  allocated : m.size ≤ ceiling

theorem Roomy.read_eq (h : m.Roomy) (n : Nat) :
    m.read n = if n < m.limit.toNat then .ok (m.tape n) else .error (.limitExceeded n m.limit) := by
  have hreach : m.Readable n ↔ n < m.limit.toNat := by
    have hbelow := h.below
    simp only [Readable, h.grow, true_and]
    omega
  simp only [Memory.read_eq, hreach, refusal, h.grow]

theorem Roomy.checkWrite_eq (h : m.Roomy) (n : Nat) :
    m.checkWrite n = if n < m.limit.toNat then
      if n + 1 ≤ ceiling then .ok () else .error (.allocationFailed (n + 1))
    else .error (.limitExceeded n m.limit) := by
  have hbelow := h.below
  have hallocated := h.allocated
  by_cases hn : n < m.size
  · have hlimit : n < m.limit.toNat := by omega
    have hceiling : n + 1 ≤ ceiling := by omega
    simp only [checkWrite, hn, hlimit, hceiling, if_true]
  · simp only [checkWrite, hn, if_false, h.grow]

theorem Roomy.store (h : m.Roomy) (value : Cell) (hw : m.checkWrite n = .ok ()) :
    (m.store n value).Roomy := by
  have hbelow := h.below
  have hallocated := h.allocated
  have hlimit : (m.store n value).limit = m.limit := rfl
  rw [h.checkWrite_eq] at hw
  refine ⟨h.grow, ?_, ?_⟩
  · rw [size_store, hlimit]
    split at hw
    · omega
    · cases hw
  · rw [size_store]
    split at hw
    · split at hw
      · omega
      · cases hw
    · cases hw

theorem getD_append_zeros (row : Array Cell) (k n : Nat) :
    (row ++ Array.replicate k 0).getD n 0 = row.getD n 0 := by
  simp only [Array.getD_eq_getD_getElem?]
  by_cases hn : n < row.size
  · rw [Array.getElem?_append_left hn]
  · rw [Array.getElem?_append_right (Nat.not_lt.mp hn), Array.getElem?_eq_none (Nat.not_lt.mp hn),
      Array.getElem?_replicate]
    split <;> rfl

theorem getD_image (program : Array Cell) (least n : Nat) :
    (image program least).getD n 0 = program.getD n 0 := getD_append_zeros ..

theorem tape_restore (program : Array Cell) (n : Nat) :
    (m.restore program).tape n = program.getD n 0 := getD_image program m.cells.size n

def pad (m : Memory) (k : Nat) : Memory := { m with cells := m.cells ++ Array.replicate k 0 }

@[simp] theorem size_pad (m : Memory) (k : Nat) : (m.pad k).size = m.size + k := by
  simp [pad, size]

@[simp] theorem tape_pad (m : Memory) (k n : Nat) : (m.pad k).tape n = m.tape n :=
  getD_append_zeros ..

/-- The same tape in a row that is as long or longer. The program fits into both. -/
structure Lengthened (program : Array Cell) (b a : Memory) : Prop where
  grow : a.policy = .grow
  roomy : b.Roomy
  limit : b.limit = a.limit
  tape : ∀ n, b.tape n = a.tape n
  longer : a.size ≤ b.size
  fits : program.size ≤ a.size

theorem Lengthened.roomy_short (h : Lengthened program b a) : a.Roomy := by
  have hbelow := h.roomy.below
  have hallocated := h.roomy.allocated
  have hlonger := h.longer
  rw [h.limit] at hbelow
  exact ⟨h.grow, by omega, by omega⟩

theorem Lengthened.eq_pad (h : Lengthened program b a) : b = a.pad (b.size - a.size) := by
  have hlonger := h.longer
  apply ext_tape
  · rw [size_pad]
    omega
  · intro n
    rw [h.tape, tape_pad]
  · exact h.roomy.grow.trans h.grow.symm
  · exact h.limit

theorem kept_lengthened : Kept Lengthened (fun _ => False) where
  agrees {program b a} h := by
    constructor
    · intro n
      left
      rw [h.roomy.read_eq, h.roomy_short.read_eq, h.limit, h.tape]
    · intro n
      left
      rw [h.roomy.checkWrite_eq, h.roomy_short.checkWrite_eq, h.limit]
  store {program b a} n value h hw := by
    have hlonger := h.longer
    have hfits := h.fits
    have hw' : b.checkWrite n = .ok () := by
      rw [h.roomy.checkWrite_eq, h.limit, ← h.roomy_short.checkWrite_eq]
      exact hw
    refine ⟨h.grow, h.roomy.store value hw', h.limit, ?_, ?_, ?_⟩
    · intro k
      rw [tape_store, tape_store, h.tape]
    · rw [size_store, size_store]
      omega
    · rw [size_store]
      omega
  restore {program b a} h := by
    have hlonger := h.longer
    have hfits := h.fits
    have hbelow := h.roomy.below
    have hallocated := h.roomy.allocated
    have hlimit : (b.restore program).limit = b.limit := rfl
    refine ⟨h.grow, ⟨h.roomy.grow, ?_, ?_⟩, h.limit, ?_, ?_, ?_⟩
    · rw [size_restore, hlimit]
      omega
    · rw [size_restore]
      omega
    · intro k
      rw [tape_restore, tape_restore]
    · rw [size_restore, size_restore]
      omega
    · rw [size_restore]
      omega

end Memory

/-- Where the shorter row has no cell for the program counter, the longer one has none either, or a zero. -/
inductive MachineError.Overrun : MachineError → MachineError → Prop
  | beyond {pc : Cell} {size size' : Nat} : size ≤ size' →
      Overrun (.programCounterOverrun pc size') (.programCounterOverrun pc size)
  | blank {pc : Cell} {place size : Nat} : (place : Int) = pc.toInt →
      Overrun (.decode place (.invalidOpcode 0)) (.programCounterOverrun pc size)

namespace Machine

def pad (m : Machine) (k : Nat) : Machine := { m with mem := m.mem.pad k }

theorem Twins.eq_pad {b a : Machine} (h : Twins Memory.Lengthened b a) : ∃ k, b = a.pad k :=
  ⟨_, h.rest.trans (congrArg a.withMemory h.memories.eq_pad)⟩

theorem fetch_lengthened {b a : Machine} (h : Twins Memory.Lengthened b a) :
    b.fetch = a.fetch ∨
      ∃ e' e, b.fetch = .error e' ∧ a.fetch = .error e ∧ MachineError.Overrun e' e := by
  obtain ⟨mem, hlong, rfl⟩ : ∃ mem, Memory.Lengthened a.program mem a.mem ∧ b = a.withMemory mem :=
    ⟨b.mem, h.memories, h.rest⟩
  have hlonger := hlong.longer
  have hregs : (a.withMemory mem).regs = a.regs := rfl
  have hmem : (a.withMemory mem).mem = mem := rfl
  simp only [fetch, hregs, hmem]
  by_cases hneg : a.regs.pc < 0
  · rw [if_pos hneg, if_pos hneg]
    exact .inr ⟨_, _, rfl, rfl, .beyond hlonger⟩
  · have hpc := Cell.nonneg_of_not_lt hneg
    rw [if_neg hneg, if_neg hneg, Cell.toNat_toUInt64 hpc]
    by_cases hin : a.regs.pc.toInt.toNat < a.mem.size
    · rw [Memory.tape_eq_getElem hin, Memory.tape_eq_getElem (by omega), hlong.tape]
      exact .inl rfl
    -- The shorter row has ended here. The longer one has ended too, or its cell is one of the zeros.
    · have hnone : a.mem.cells[a.regs.pc.toInt.toNat]? = none := by simpa [Memory.size] using hin
      rw [hnone]
      right
      by_cases hin' : a.regs.pc.toInt.toNat < mem.size
      · have hzero : decode 0 = .error (.invalidOpcode 0) := rfl
        rw [Memory.tape_eq_getElem hin', hlong.tape, Memory.tape_eq_zero (Nat.not_lt.mp hin)]
        simp only [hzero]
        exact ⟨_, _, rfl, rfl, .blank (Int.toNat_of_nonneg hpc)⟩
      · have hnone' : mem.cells[a.regs.pc.toInt.toNat]? = none := by simpa [Memory.size] using hin'
        rw [hnone']
        exact ⟨_, _, rfl, rfl, .beyond hlonger⟩

/-- Zeros at the end of memory show in nothing but the errors of a program counter that left it. -/
theorem lockstep_lengthened :
    Lockstep (Twins Memory.Lengthened) MachineError.Overrun (MachineError.OfMemory fun _ => False) :=
  lockstep_twins Memory.kept_lengthened fetch_lengthened

end Machine

end Intcode
