import Intcode.Proofs.Tape
set_option autoImplicit false

/-!
Instructions and their parameters, read off the tape. The instruction is the one at the program counter,
if that is inside the memory. A parameter that is not immediate names a place, an exact integer; it can be
used when that integer is an address and the address can be read, or written if it is a target. An
instruction fails where its first parameter does that cannot be used.
-/
namespace Intcode

theorem Cell.toNat_toUInt64 {a : Cell} (h : 0 ≤ a.toInt) : a.toUInt64.toNat = a.toInt.toNat :=
  Int64.toNat_toUInt64_of_le (Int64.le_iff_toInt_le.mpr h)

theorem Cell.lt_zero_iff {a : Cell} : a < 0 ↔ a.toInt < 0 := Int64.lt_iff_toInt_lt

theorem Cell.nonneg_of_not_lt {a : Cell} (h : ¬ a < 0) : 0 ≤ a.toInt := by
  have hn := mt Cell.lt_zero_iff.mpr h
  omega

theorem Cell.address_of_toInt {c : Cell} {a : Nat} (h : c.toInt = a) : ¬ c < 0 ∧ c.toUInt64.toNat = a := by
  have hnonneg : 0 ≤ c.toInt := by omega
  refine ⟨?_, ?_⟩
  · intro hneg
    have hneg' := Cell.lt_zero_iff.mp hneg
    omega
  · rw [Cell.toNat_toUInt64 hnonneg, h, Int.toNat_natCast]

def Count.Holds (n : Nat) : Prop := (n : Int) ≤ Count.greatest

def Cell.Holds (n : Nat) : Prop := (n : Int) ≤ Cell.greatest

instance (n : Nat) : Decidable (Count.Holds n) := inferInstanceAs (Decidable (_ ≤ _))
instance (n : Nat) : Decidable (Cell.Holds n) := inferInstanceAs (Decidable (_ ≤ _))

namespace Registers

/-- The exact integer that a parameter names as its address. -/
def place (r : Registers) (raw : Cell) : Mode → Int
  | .relative => r.relativeBase.toInt + raw.toInt
  | _ => raw.toInt

theorem locate_cases (a : Cell) :
    (0 ≤ a.toInt ∧ ∃ u, locate a = .ok (.address u) ∧ u.toNat = a.toInt.toNat) ∨
    (¬ 0 ≤ a.toInt ∧ ∃ e, locate a = .error e) := by
  unfold locate Cell.toAddress?
  by_cases h : a < 0
  · have h' := Cell.lt_zero_iff.mp h
    refine .inr ⟨by omega, .negativeAddress a, by simp [h]⟩
  · have h' := Cell.nonneg_of_not_lt h
    refine .inl ⟨h', a.toUInt64, by simp [h], Cell.toNat_toUInt64 h'⟩

theorem resolve_cases (r : Registers) (raw : Cell) {mode : Mode} (hm : mode ≠ .immediate) :
    ((0 ≤ r.place raw mode ∧ r.place raw mode ≤ Cell.greatest) ∧
      ∃ u, r.resolve raw mode = .ok (.address u) ∧ u.toNat = (r.place raw mode).toNat) ∨
    (¬ (0 ≤ r.place raw mode ∧ r.place raw mode ≤ Cell.greatest) ∧ ∃ e, r.resolve raw mode = .error e) := by
  cases mode with
  | immediate => exact absurd rfl hm
  | position =>
    have hle := raw.toInt_le_greatest
    obtain ⟨h, hu⟩ | ⟨h, he⟩ := locate_cases raw
    · exact .inl ⟨⟨h, hle⟩, hu⟩
    · exact .inr ⟨fun hp => h hp.1, he⟩
  | relative =>
    unfold resolve place
    simp only
    cases hc : Cell.ofInt? (r.relativeBase.toInt + raw.toInt) with
    | none =>
      have hout := Cell.ofInt?_eq_none_iff.mp hc
      unfold Cell.least Cell.greatest at hout
      refine .inr ⟨?_, _, rfl⟩
      unfold Cell.greatest
      omega
    | some a =>
      have ha := Cell.toInt_of_ofInt? hc
      have hle := a.toInt_le_greatest
      rw [← ha]
      obtain ⟨h, hu⟩ | ⟨h, he⟩ := locate_cases a
      · exact .inl ⟨⟨h, hle⟩, hu⟩
      · exact .inr ⟨fun hp => h hp.1, he⟩

end Registers

namespace Machine

variable (m : Machine) (f : Fetched) (k : Nat)

def raw : Cell := m.mem.tape (f.pc + 1 + k)

def place : Int := m.regs.place (m.raw f k) (f.instruction.modeAt k)

def argument : Cell :=
  if f.instruction.modeAt k = .immediate then m.raw f k else m.mem.tape (m.place f k).toNat

/-- The parameter's own cell can be read, and what it names is there to be read or written. -/
structure Accessible : Prop where
  cell : m.mem.Readable (f.pc + 1 + k)
  address : f.instruction.modeAt k ≠ .immediate → 0 ≤ m.place f k ∧ m.place f k ≤ Cell.greatest
  read : f.instruction.opcode.access k = .read → f.instruction.modeAt k ≠ .immediate →
    m.mem.Readable (m.place f k).toNat
  write : f.instruction.opcode.access k = .write → m.mem.Writable (m.place f k).toNat

variable {m f k}

theorem fetch_eq_ok_iff : m.fetch = .ok f ↔
    (f.pc : Int) = m.regs.pc.toInt ∧ f.pc < m.mem.size ∧ f.word = m.mem.tape f.pc ∧
      decode f.word = .ok f.instruction := by
  unfold fetch
  by_cases hneg : m.regs.pc < 0
  · have h := Cell.lt_zero_iff.mp hneg
    simp only [hneg, if_true, reduceCtorEq, false_iff]
    intro hf
    omega
  · have h := Cell.nonneg_of_not_lt hneg
    obtain ⟨n, hn⟩ := Int.eq_ofNat_of_zero_le h
    have hnat : m.regs.pc.toUInt64.toNat = n := by rw [Cell.toNat_toUInt64 h, hn, Int.toNat_natCast]
    simp only [hneg, if_false, hnat, hn, Int.natCast_inj]
    by_cases hin : n < m.mem.size
    · simp only [Memory.tape_eq_getElem hin]
      cases hd : decode (m.mem.tape n) with
      | error e =>
        simp only [reduceCtorEq, false_iff]
        intro h
        rcases h with ⟨rfl, _, hw, hi⟩
        rw [hw, hd] at hi
        cases hi
      | ok i =>
        simp only [Except.ok.injEq]
        constructor
        · intro heq
          subst heq
          exact ⟨rfl, hin, rfl, hd⟩
        · intro h
          rcases h with ⟨rfl, _, hw, hi⟩
          rw [hw, hd] at hi
          cases hi
          rw [← hw]
    · have hnone : m.mem.cells[n]? = none := by simpa [Memory.size] using hin
      simp only [hnone, reduceCtorEq, false_iff]
      intro h
      rcases h with ⟨rfl, hlt, _⟩
      exact hin hlt

theorem fetch_of_cell {n : Nat} {word : Cell} {i : Instruction} (hpc : m.regs.pc.toInt = n)
    (hcell : m.mem.cells[n]? = some word) (hdecode : decode word = .ok i) :
    m.fetch = .ok ⟨n, word, i⟩ := by
  obtain ⟨hin, _⟩ := Array.getElem?_eq_some_iff.mp hcell
  refine fetch_eq_ok_iff.mpr ⟨hpc.symm, hin, ?_, hdecode⟩
  simp [Memory.tape, hcell]

theorem operand_eq_ok_iff (hk : k < f.instruction.opcode.arity) {o : Operand} :
    m.operand f k = .ok o ↔ m.mem.Readable (f.pc + 1 + k) ∧
      m.regs.resolve (m.raw f k) (f.instruction.modeAt k) = .ok o := by
  unfold operand Instruction.mode
  simp only [hk, if_true, Fallible.bind_eq_ok, Fallible.mapError_eq_ok, Memory.read_eq_ok_iff]
  constructor
  · intro h
    rcases h with ⟨mode, hmode, raw, ⟨hr, rfl⟩, h⟩
    cases hmode
    exact ⟨hr, h⟩
  · intro h
    rcases h with ⟨hr, h⟩
    exact ⟨_, rfl, _, ⟨hr, rfl⟩, h⟩

theorem resolve_cases (hm : f.instruction.modeAt k ≠ .immediate) :
    ((0 ≤ m.place f k ∧ m.place f k ≤ Cell.greatest) ∧
      ∃ u, m.regs.resolve (m.raw f k) (f.instruction.modeAt k) = .ok (.address u) ∧
        u.toNat = (m.place f k).toNat) ∨
    (¬ (0 ≤ m.place f k ∧ m.place f k ≤ Cell.greatest) ∧
      ∃ e, m.regs.resolve (m.raw f k) (f.instruction.modeAt k) = .error e) :=
  m.regs.resolve_cases (m.raw f k) hm

theorem readParam_eq_ok_iff (hk : k < f.instruction.opcode.arity)
    (ha : f.instruction.opcode.access k = .read) {v : Cell} :
    m.readParam f k = .ok v ↔ m.Accessible f k ∧ v = m.argument f k := by
  unfold readParam
  rw [Fallible.bind_eq_ok]
  simp only [operand_eq_ok_iff hk]
  by_cases hm : f.instruction.modeAt k = .immediate
  · have hres : m.regs.resolve (m.raw f k) .immediate = .ok (.value (m.raw f k)) := rfl
    constructor
    · intro h
      rcases h with ⟨o, ⟨hc, ho⟩, hv⟩
      rw [hm, hres] at ho
      cases ho
      cases hv
      exact ⟨⟨hc, fun h => absurd hm h, fun _ h => absurd hm h, by simp [ha]⟩, by simp [argument, hm]⟩
    · intro h
      rcases h with ⟨h, rfl⟩
      exact ⟨.value (m.raw f k), ⟨h.cell, by rw [hm, hres]⟩, by simp [argument, hm]; rfl⟩
  · obtain ⟨hp, u, hres, hu⟩ | ⟨hp, e, hres⟩ := resolve_cases (m := m) hm
    · constructor
      · intro h
        rcases h with ⟨o, ⟨hc, ho⟩, hv⟩
        rw [hres] at ho
        cases ho
        rw [Fallible.mapError_eq_ok, Memory.read_eq_ok_iff, hu] at hv
        exact ⟨⟨hc, fun _ => hp, fun _ _ => hv.1, by simp [ha]⟩, by simpa [argument, hm] using hv.2⟩
      · intro h
        rcases h with ⟨h, rfl⟩
        refine ⟨.address u, ⟨h.cell, hres⟩, ?_⟩
        rw [Fallible.mapError_eq_ok, Memory.read_eq_ok_iff, hu]
        exact ⟨h.read ha hm, by simp [argument, hm]⟩
    · constructor
      · intro h
        rcases h with ⟨o, ⟨_, ho⟩, _⟩
        rw [hres] at ho
        cases ho
      · intro h
        rcases h with ⟨h, _⟩
        exact absurd (h.address hm) hp

theorem target_eq_ok_iff (hk : k < f.instruction.opcode.arity)
    (ha : f.instruction.opcode.access k = .write) (hm : f.instruction.modeAt k ≠ .immediate) {a : Nat} :
    m.target f k = .ok a ↔ m.Accessible f k ∧ a = (m.place f k).toNat := by
  unfold target
  rw [Fallible.bind_eq_ok]
  simp only [operand_eq_ok_iff hk]
  obtain ⟨hp, u, hres, hu⟩ | ⟨hp, e, hres⟩ := resolve_cases (m := m) hm
  · constructor
    · intro h
      rcases h with ⟨o, ⟨hc, ho⟩, hv⟩
      rw [hres] at ho
      cases ho
      simp only [Fallible.bind_eq_ok, Fallible.mapError_eq_ok, Memory.checkWrite_eq_ok_iff, hu] at hv
      obtain ⟨_, hw, ha'⟩ := hv
      cases ha'
      exact ⟨⟨hc, fun _ => hp, by simp [ha], fun _ => hw⟩, rfl⟩
    · intro h
      rcases h with ⟨h, rfl⟩
      refine ⟨.address u, ⟨h.cell, hres⟩, ?_⟩
      simp only [Fallible.bind_eq_ok, Fallible.mapError_eq_ok, Memory.checkWrite_eq_ok_iff, hu]
      exact ⟨(), h.write ha, rfl⟩
  · constructor
    · intro h
      rcases h with ⟨o, ⟨_, ho⟩, _⟩
      rw [hres] at ho
      cases ho
    · intro h
      rcases h with ⟨h, _⟩
      exact absurd (h.address hm) hp

/-- What an instruction asks of parameter `k`, without the outcome: its operand, or that it be writable. -/
def demand (m : Machine) (f : Fetched) (k : Nat) : Except MachineError Unit :=
  match f.instruction.opcode.access k with
  | .read => (fun _ => ()) <$> m.readParam f k
  | .write => (fun _ => ()) <$> m.target f k

theorem demand_of_read (ha : f.instruction.opcode.access k = .read) :
    m.demand f k = (fun _ => ()) <$> m.readParam f k := by
  rw [demand, ha]

theorem demand_of_write (ha : f.instruction.opcode.access k = .write) :
    m.demand f k = (fun _ => ()) <$> m.target f k := by
  rw [demand, ha]

theorem exists_first_succ {p q : Nat → Prop} {n : Nat} : (∃ k < n + 1, p k ∧ ∀ j < k, q j) ↔
    p 0 ∨ q 0 ∧ ∃ k < n, p (k + 1) ∧ ∀ j < k, q (j + 1) := by
  rw [Nat.exists_lt_succ_left]
  simp only [Nat.forall_lt_succ_left, Nat.not_lt_zero, false_imp_iff, forall_const, and_true]
  grind

theorem effect_eq_error_iff {e : MachineError} : m.effect f = .error e ↔
    (f.instruction.opcode = .input → m.input ≠ []) ∧ ∃ k < f.instruction.opcode.arity,
      m.demand f k = .error e ∧ ∀ j < k, m.demand f j = .ok () := by
  have hread {k : Nat} (ha : f.instruction.opcode.access k = .read) :
      (m.demand f k = .error e ↔ m.readParam f k = .error e) ∧
        (m.demand f k = .ok () ↔ ∃ v, m.readParam f k = .ok v) := by
    rw [demand_of_read ha]
    exact ⟨Fallible.map_eq_error, by simp [Fallible.map_eq_ok]⟩
  have hwrite {k : Nat} (ha : f.instruction.opcode.access k = .write) :
      m.demand f k = .error e ↔ m.target f k = .error e := by
    rw [demand_of_write ha]
    exact Fallible.map_eq_error
  unfold effect
  cases hop : f.instruction.opcode with
  | halt => simp [Opcode.arity]
  | output | adjustRelativeBase =>
    have h0 := hread (k := 0) (by simp [hop, Opcode.access, Opcode.target?])
    simp [Fallible.bind_eq_error, Opcode.arity, h0, pure, Except.pure]
  | input =>
    have h0 := hwrite (k := 0) (by simp [hop, Opcode.access, Opcode.target?])
    cases hin : m.input with
    | nil => simp
    | cons v rest => simp [Fallible.bind_eq_error, Opcode.arity, h0, pure, Except.pure]
  | jumpIfTrue | jumpIfFalse =>
    have h0 := hread (k := 0) (by simp [hop, Opcode.access, Opcode.target?])
    have h1 := hread (k := 1) (by simp [hop, Opcode.access, Opcode.target?])
    simp only [Opcode.arity, exists_first_succ, Nat.not_lt_zero, false_and, exists_false, and_false, or_false,
      h0, h1]
    rw [Fallible.map_eq_error, branch]
    simp [Fallible.bind_eq_error, pure, Except.pure]
  | add | multiply | lessThan | equals =>
    have h0 := hread (k := 0) (by simp [hop, Opcode.access, Opcode.target?])
    have h1 := hread (k := 1) (by simp [hop, Opcode.access, Opcode.target?])
    have h2 := hwrite (k := 2) (by simp [hop, Opcode.access, Opcode.target?])
    simp only [Opcode.arity, exists_first_succ, Nat.not_lt_zero, false_and, exists_false, and_false, or_false,
      h0, h1, h2]
    rw [Fallible.map_eq_error, combine]
    simp [Fallible.bind_eq_error, pure, Except.pure]

end Machine

end Intcode
