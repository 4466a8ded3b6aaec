import Intcode.Proofs.Disassembly
import Intcode.Proofs.Guards
set_option autoImplicit false

/-!
Which error a step meets. Outside the memory it is about the program counter; where there is no instruction
it is the decoder's; otherwise it is about the first parameter that has a flaw, and about the first of its
flaws: that its cell cannot be read, that it names no address, or that the address cannot be used.
-/
namespace Intcode

def MemoryError.IsUnresolved : MemoryError → Prop
  | .negativeAddress _ | .addressOverflow _ _ => True
  | _ => False

namespace Memory

/-- The error of an address that cannot be written. -/
def denial (m : Memory) (a : Nat) : MemoryError :=
  if m.Readable a then .allocationFailed (a + 1) else m.refusal a

def objection? (m : Memory) (a : Nat) : Access → Option MemoryError
  | .read => if m.Readable a then none else some (m.refusal a)
  | .write => if m.Writable a then none else some (m.denial a)

variable {m : Memory} {a : Nat}

theorem checkWrite_eq : m.checkWrite a = if m.Writable a then .ok () else .error (m.denial a) := by
  by_cases hw : m.Writable a
  · rw [if_pos hw]
    exact checkWrite_eq_ok_iff.mpr hw
  · rw [if_neg hw]
    obtain ⟨hsize, hpolicy⟩ := not_or.mp (mt writable_iff.mpr hw)
    simp only [checkWrite, hsize, if_false, denial, refusal, Readable]
    cases hp : m.policy with
    | strict => simp
    | grow =>
      by_cases hl : a < m.limit.toNat
      · have hroom : ¬ a + 1 ≤ ceiling := fun h => hpolicy ⟨hp, hl, h⟩
        simp [hl, hroom]
      · simp [hl]

theorem not_isUnresolved_of_refusal {cause : MemoryError} (h : m.refusal a = cause) :
    ¬ cause.IsUnresolved := by
  unfold refusal at h
  split at h <;> cases h <;> exact id

theorem not_isUnresolved_of_objection {access : Access} {cause : MemoryError}
    (h : m.objection? a access = some cause) : ¬ cause.IsUnresolved := by
  unfold objection? at h
  split at h <;> split at h <;> cases h
  · exact not_isUnresolved_of_refusal rfl
  · unfold denial
    split
    · exact id
    · exact not_isUnresolved_of_refusal rfl

end Memory

namespace Registers

variable {r : Registers} {raw : Cell} {mode : Mode}

theorem locate_of_neg {a : Cell} (h : a.toInt < 0) : locate a = .error (.negativeAddress a) := by
  simp only [locate, Cell.toAddress?, Cell.lt_zero_iff.mpr h, if_true]

theorem resolve_overflow (h : r.place raw mode < Cell.least ∨ Cell.greatest < r.place raw mode) :
    r.resolve raw mode = .error (.addressOverflow r.relativeBase raw) := by
  have hlo := raw.least_le_toInt
  have hhi := raw.toInt_le_greatest
  cases mode with
  | relative =>
    have hnone : Cell.ofInt? (r.relativeBase.toInt + raw.toInt) = none := Cell.ofInt?_eq_none_iff.mpr h
    simp only [resolve, hnone]
  | position | immediate =>
    rw [place.eq_def] at h
    simp only at h
    omega

theorem resolve_negative (hm : mode ≠ .immediate) (hlo : Cell.least ≤ r.place raw mode)
    (hneg : r.place raw mode < 0) :
    r.resolve raw mode = .error (.negativeAddress (Int64.ofInt (r.place raw mode))) := by
  cases mode with
  | immediate => exact absurd rfl hm
  | position =>
    have hraw : Int64.ofInt (r.place raw .position) = raw := raw.ofInt_toInt
    rw [hraw]
    exact locate_of_neg hneg
  | relative =>
    cases hsum : Cell.ofInt? (r.relativeBase.toInt + raw.toInt) with
    | none =>
      have hout := Cell.ofInt?_eq_none_iff.mp hsum
      simp only [place] at hlo hneg
      unfold Cell.greatest at hout
      omega
    | some a =>
      have ha : a.toInt = r.place raw .relative := Cell.toInt_of_ofInt? hsum
      rw [← ha] at hneg
      simp only [resolve, hsum, locate_of_neg hneg, ← ha, Int64.ofInt_toInt]

end Registers

namespace Machine

/-- The first thing that is wrong with a parameter: its own cell, the address that it names, or the use of
that address. Addresses are exact integers here. -/
def flaw? (m : Machine) (f : Fetched) (k : Nat) : Option MemoryError :=
  if ¬ m.mem.Readable (f.pc + 1 + k) then some (m.mem.refusal (f.pc + 1 + k))
  else if f.instruction.modeAt k = .immediate then none
  else if m.place f k < Cell.least ∨ Cell.greatest < m.place f k then
    some (.addressOverflow m.regs.relativeBase (m.raw f k))
  else if m.place f k < 0 then some (.negativeAddress (Int64.ofInt (m.place f k)))
  else m.mem.objection? (m.place f k).toNat (f.instruction.opcode.access k)

section Flaws
variable {m : Machine} {f : Fetched} {k : Nat}

theorem demand_of_operand_error {e : MachineError} (h : m.operand f k = .error e) :
    m.demand f k = .error e := by
  cases ha : f.instruction.opcode.access k with
  | read => rw [demand_of_read ha, Fallible.map_eq_error, readParam, h]; rfl
  | write => rw [demand_of_write ha, Fallible.map_eq_error, target, h]; rfl

theorem demand_of_operand_address {u : Count} (h : m.operand f k = .ok (.address u)) :
    m.demand f k = match m.mem.objection? u.toNat (f.instruction.opcode.access k) with
      | none => .ok ()
      | some cause => .error (.memory cause) := by
  cases ha : f.instruction.opcode.access k with
  | read =>
    rw [demand_of_read ha, readParam, h, Memory.objection?]
    change _ <$> (m.mem.read u.toNat).mapError MachineError.memory = _
    rw [Memory.read_eq]
    split <;> rfl
  | write =>
    rw [demand_of_write ha, target, h, Memory.objection?]
    change _ <$> ((m.mem.checkWrite u.toNat).mapError MachineError.memory >>= fun _ => pure u.toNat) = _
    rw [Memory.checkWrite_eq]
    split <;> rfl

theorem demand_eq (hd : decode f.word = .ok f.instruction) (hk : k < f.instruction.opcode.arity) :
    m.demand f k = match m.flaw? f k with
      | none => .ok ()
      | some cause => .error (.memory cause) := by
  by_cases hcell : m.mem.Readable (f.pc + 1 + k)
  · have hread : m.mem.read (f.pc + 1 + k) = .ok (m.raw f k) := Memory.read_eq_ok_iff.mpr ⟨hcell, rfl⟩
    have hoperand := operand_of_read hk hread
    by_cases hm : f.instruction.modeAt k = .immediate
    · have hvalue : m.readParam f k = .ok (m.raw f k) := by
        rw [readParam, hoperand, hm]
        rfl
      have ha : f.instruction.opcode.access k = .read := by
        cases ha : f.instruction.opcode.access k with
        | read => rfl
        | write => exact absurd hm (modeAt_target hd hk ha)
      rw [demand_of_read ha, hvalue]
      simp [flaw?, hcell, hm, Functor.map, Except.map]
    · by_cases hover : m.place f k < Cell.least ∨ Cell.greatest < m.place f k
      · rw [Registers.resolve_overflow hover] at hoperand
        rw [demand_of_operand_error hoperand]
        simp [flaw?, hcell, hm, hover]
      · by_cases hneg : m.place f k < 0
        · rw [Registers.resolve_negative hm (Int.not_lt.mp (not_or.mp hover).1) hneg] at hoperand
          rw [demand_of_operand_error hoperand]
          simp [flaw?, hcell, hm, hover, hneg]
          rfl
        · obtain ⟨_, u, hu, hplace⟩ | ⟨hout, _⟩ := resolve_cases (m := m) hm
          · rw [hu] at hoperand
            rw [demand_of_operand_address hoperand, hplace]
            simp only [flaw?, hcell, hm, hover, hneg, not_true_eq_false, if_false]
          · omega
  · have hoperand : m.operand f k = .error (.memory (m.mem.refusal (f.pc + 1 + k))) := by
      simp only [operand, Instruction.mode, if_pos hk, Memory.read_eq, if_neg hcell]
      rfl
    rw [demand_of_operand_error hoperand]
    simp [flaw?, hcell]

theorem demand_eq_error_iff (hd : decode f.word = .ok f.instruction) (hk : k < f.instruction.opcode.arity)
    {e : MachineError} : m.demand f k = .error e ↔ ∃ cause, m.flaw? f k = some cause ∧ e = .memory cause := by
  rw [demand_eq hd hk]
  cases m.flaw? f k with
  | none => simp
  | some cause => simp [eq_comm]

theorem demand_eq_ok_iff (hd : decode f.word = .ok f.instruction) (hk : k < f.instruction.opcode.arity) :
    m.demand f k = .ok () ↔ m.flaw? f k = none := by
  rw [demand_eq hd hk]
  cases m.flaw? f k <;> simp

theorem effect_eq_error_iff_flaw (hd : decode f.word = .ok f.instruction) {e : MachineError} :
    m.effect f = .error e ↔ (f.instruction.opcode = .input → m.input ≠ []) ∧
      ∃ k < f.instruction.opcode.arity, ∃ cause, m.flaw? f k = some cause ∧ e = .memory cause ∧
        ∀ j < k, m.flaw? f j = none := by
  rw [effect_eq_error_iff]
  refine and_congr_right fun _ => exists_congr fun k => and_congr_right fun hk => ?_
  rw [demand_eq_error_iff hd hk]
  have hbefore : (∀ j < k, m.demand f j = .ok ()) ↔ ∀ j < k, m.flaw? f j = none :=
    forall₂_congr fun j hj => demand_eq_ok_iff hd (by omega)
  rw [hbefore]
  simp only [← exists_and_right, and_assoc]

theorem flaw?_eq_addressOverflow_iff {base offset : Cell} :
    m.flaw? f k = some (.addressOverflow base offset) ↔
      m.mem.Readable (f.pc + 1 + k) ∧ f.instruction.modeAt k = .relative ∧
        (m.regs.relativeBase.toInt + (m.raw f k).toInt < Cell.least ∨
          Cell.greatest < m.regs.relativeBase.toInt + (m.raw f k).toInt) ∧
        base = m.regs.relativeBase ∧ offset = m.raw f k := by
  have hlo := (m.raw f k).least_le_toInt
  have hhi := (m.raw f k).toInt_le_greatest
  have hout : (m.place f k < Cell.least ∨ Cell.greatest < m.place f k) ↔
      f.instruction.modeAt k = .relative ∧
        (m.regs.relativeBase.toInt + (m.raw f k).toInt < Cell.least ∨
          Cell.greatest < m.regs.relativeBase.toInt + (m.raw f k).toInt) := by
    rw [place]
    cases f.instruction.modeAt k with
    | relative => simp [Registers.place]
    | position | immediate => simp [Registers.place, hlo, hhi]
  unfold flaw?
  split_ifs with hcell hm hplace hneg
  · refine iff_of_false (by simp) ?_
    rintro ⟨_, hrelative, _⟩
    rw [hm] at hrelative
    cases hrelative
  · obtain ⟨hrelative, hsum⟩ := hout.mp hplace
    simp [hcell, hrelative, hsum, eq_comm]
  · refine iff_of_false (by simp) ?_
    rintro ⟨_, hrelative, hsum, _⟩
    exact hplace (hout.mpr ⟨hrelative, hsum⟩)
  · refine iff_of_false ?_ ?_
    · intro h
      exact Memory.not_isUnresolved_of_objection h trivial
    · rintro ⟨_, hrelative, hsum, _⟩
      exact hplace (hout.mpr ⟨hrelative, hsum⟩)
  · refine iff_of_false ?_ fun h => hcell h.1
    intro h
    exact Memory.not_isUnresolved_of_refusal (Option.some.inj h) trivial

theorem flaw?_eq_negativeAddress_iff {address : Cell} :
    m.flaw? f k = some (.negativeAddress address) ↔
      m.mem.Readable (f.pc + 1 + k) ∧ f.instruction.modeAt k ≠ .immediate ∧
        address.toInt = m.place f k ∧ m.place f k < 0 := by
  have hlo := address.least_le_toInt
  have hhi := address.toInt_le_greatest
  unfold flaw?
  split_ifs with hcell hm hplace hneg
  · exact iff_of_false (by simp) fun h => h.2.1 hm
  · refine iff_of_false (by simp) ?_
    rintro ⟨_, _, haddress, _⟩
    omega
  · obtain ⟨hlower, hupper⟩ := not_or.mp hplace
    have hexact : (Int64.ofInt (m.place f k)).toInt = m.place f k := by
      unfold Cell.least at hlower
      exact Int64.toInt_ofInt_of_le (by omega) (by omega)
    rw [Option.some.injEq, MemoryError.negativeAddress.injEq, ← Int64.toInt_inj, hexact]
    simp [hcell, hm, hneg, eq_comm]
  · refine iff_of_false ?_ fun h => hneg h.2.2.2
    intro h
    exact Memory.not_isUnresolved_of_objection h trivial
  · refine iff_of_false ?_ fun h => hcell h.1
    intro h
    exact Memory.not_isUnresolved_of_refusal (Option.some.inj h) trivial

end Flaws

section Steps
variable {m : Machine} {f : Fetched} {e : MachineError}

theorem step_eq_error_iff (ht : m.state.isTerminal = false) : m.step.1 = .error e ↔
    m.fetch = .error e ∨ ∃ f, m.fetch = .ok f ∧ m.effect f = .error e := by
  obtain ⟨e', hf, hs⟩ | ⟨f, hf, ⟨e', he, hs⟩ | ⟨he, hs⟩ | ⟨e', he, hs⟩⟩ := step_cases ht
  all_goals simp [hs, hf]
  all_goals simp [he]

theorem fetch_eq_error_iff : m.fetch = .error e ↔
    ((m.regs.pc.toInt < 0 ∨ (m.mem.size : Int) ≤ m.regs.pc.toInt) ∧
      e = .programCounterOverrun m.regs.pc m.mem.size) ∨
    ∃ a : Nat, m.regs.pc.toInt = a ∧ a < m.mem.size ∧
      ∃ cause, decode (m.mem.tape a) = .error cause ∧ e = .decode a cause := by
  by_cases hneg : m.regs.pc < 0
  · have hpc := Cell.lt_zero_iff.mp hneg
    have hnone : ∀ a : Nat, m.regs.pc.toInt ≠ a := by omega
    simp [fetch, hneg, hpc, hnone, eq_comm]
  · have hpc := Cell.nonneg_of_not_lt hneg
    obtain ⟨n, hn⟩ := Int.eq_ofNat_of_zero_le hpc
    have hnat : m.regs.pc.toUInt64.toNat = n := (Cell.address_of_toInt hn).2
    by_cases hin : n < m.mem.size
    · cases hd : decode (m.mem.tape n) with
      | error cause =>
        rw [fetch_undecodable hn hin hd]
        simp [hn, hin, hd, eq_comm]
      | ok i =>
        rw [fetch_decoded hn hin hd]
        simp [hn, hin, hd]
    · have hnone : m.mem.cells[n]? = none := by simpa [Memory.size] using hin
      have hbeyond : m.mem.size ≤ n := Nat.not_lt.mp hin
      simp [fetch, hneg, hnat, hnone, hn, hin, hbeyond, eq_comm]

/-- What a step can be blamed on: the program counter, the word that is found there, or the first parameter of
the instruction that has a flaw. -/
inductive Blames (m : Machine) : MachineError → Prop
  | programCounter : m.regs.pc.toInt < 0 ∨ (m.mem.size : Int) ≤ m.regs.pc.toInt →
      Blames m (.programCounterOverrun m.regs.pc m.mem.size)
  | word {a : Nat} {cause : DecodeError} : m.regs.pc.toInt = a → a < m.mem.size →
      decode (m.mem.tape a) = .error cause → Blames m (.decode a cause)
  | param {a k : Nat} {i : Instruction} {cause : MemoryError} : m.regs.pc.toInt = a → a < m.mem.size →
      decode (m.mem.tape a) = .ok i → (i.opcode = .input → m.input ≠ []) → k < i.opcode.arity →
      m.flaw? ⟨a, m.mem.tape a, i⟩ k = some cause → (∀ j < k, m.flaw? ⟨a, m.mem.tape a, i⟩ j = none) →
      Blames m (.memory cause)

theorem step_eq_error_iff_blames (ht : m.state.isTerminal = false) :
    m.step.1 = .error e ↔ m.Blames e := by
  rw [step_eq_error_iff ht, fetch_eq_error_iff]
  constructor
  · rintro ((⟨hout, rfl⟩ | ⟨a, hpc, hin, cause, hd, rfl⟩) | ⟨⟨a, word, i⟩, hf, he⟩)
    · exact .programCounter hout
    · exact .word hpc hin hd
    · obtain ⟨hpc, hin, hword, hd⟩ := fetch_eq_ok_iff.mp hf
      obtain rfl : word = m.mem.tape a := hword
      obtain ⟨hfed, k, hk, cause, hflaw, rfl, hbefore⟩ := (effect_eq_error_iff_flaw hd).mp he
      exact .param hpc.symm hin hd hfed hk hflaw hbefore
  · intro h
    cases h with
    | programCounter hout => exact .inl (.inl ⟨hout, rfl⟩)
    | word hpc hin hd => exact .inl (.inr ⟨_, hpc, hin, _, hd, rfl⟩)
    | @param a k i cause hpc hin hd hfed hk hflaw hbefore =>
      have he : m.effect ⟨a, m.mem.tape a, i⟩ = .error (.memory cause) :=
        (effect_eq_error_iff_flaw (f := ⟨a, m.mem.tape a, i⟩) hd).mpr
          ⟨hfed, k, hk, cause, hflaw, rfl, hbefore⟩
      exact .inr ⟨_, fetch_decoded hpc hin hd, he⟩

theorem decode_ne_parameterOutOfRange (w : Cell) (param arity : Nat) :
    decode w ≠ .error (.parameterOutOfRange param arity) := by
  intro h
  obtain ⟨_, he⟩ | ⟨_, _, _, _, _, _, he⟩ := decode_eq_error_iff_digits.mp h
  · cases he
  · cases he

theorem step_ne_parameterOutOfRange (ht : m.state.isTerminal = false) (place param arity : Nat) :
    m.step.1 ≠ .error (.decode place (.parameterOutOfRange param arity)) := by
  intro h
  cases (step_eq_error_iff_blames ht).mp h with
  | word _ _ hd => exact decode_ne_parameterOutOfRange _ _ _ hd

theorem exists_programCounterOverrun_iff (ht : m.state.isTerminal = false) :
    (∃ place size, m.step.1 = .error (.programCounterOverrun place size)) ↔
      m.regs.pc.toInt < 0 ∨ (m.mem.size : Int) ≤ m.regs.pc.toInt := by
  constructor
  · rintro ⟨place, size, h⟩
    cases (step_eq_error_iff_blames ht).mp h with
    | programCounter hout => exact hout
  · intro hout
    exact ⟨_, _, (step_eq_error_iff_blames ht).mpr (.programCounter hout)⟩

/-- A step can be blamed on the program counter if that is outside the memory, else on the word there if that
is no instruction, else on the first flaw of its parameters. Sums are out of range and addresses negative in
exact integers. On the way every index is in range, no parameter is asked for that the instruction does not
have, and no target is a value. -/
theorem step_error_attributed (ht : m.state.isTerminal = false) (hroom : m.mem.size ≤ Memory.ceiling) :
    m.step? = some m.step ∧
    (∀ place param arity, m.step.1 ≠ .error (.decode place (.parameterOutOfRange param arity))) ∧
    (∀ f k v, m.fetch = .ok f → f.instruction.opcode.target? = some k → m.operand f k ≠ .ok (.value v)) ∧
    ((∃ place size, m.step.1 = .error (.programCounterOverrun place size)) ↔
      m.regs.pc.toInt < 0 ∨ (m.mem.size : Int) ≤ m.regs.pc.toInt) ∧
    (∀ e, m.step.1 = .error e ↔ m.Blames e) ∧
    ∀ f k,
      (∀ base offset, m.flaw? f k = some (.addressOverflow base offset) ↔
        m.mem.Readable (f.pc + 1 + k) ∧ f.instruction.modeAt k = .relative ∧
          (m.regs.relativeBase.toInt + (m.raw f k).toInt < Cell.least ∨
            Cell.greatest < m.regs.relativeBase.toInt + (m.raw f k).toInt) ∧
          base = m.regs.relativeBase ∧ offset = m.raw f k) ∧
      ∀ address, m.flaw? f k = some (.negativeAddress address) ↔
        m.mem.Readable (f.pc + 1 + k) ∧ f.instruction.modeAt k ≠ .immediate ∧
          address.toInt = m.place f k ∧ m.place f k < 0 := by
  refine ⟨step?_eq hroom, step_ne_parameterOutOfRange ht, ?_, exists_programCounterOverrun_iff ht,
    fun e => step_eq_error_iff_blames ht, ?_⟩
  · intro f k v hf htarget hvalue
    obtain ⟨u, hu, _⟩ := operand_target (fetch_eq_ok_iff.mp hf).2.2.2 htarget hvalue
    cases hu
  · exact fun f k => ⟨fun _ _ => flaw?_eq_addressOverflow_iff, fun _ => flaw?_eq_negativeAddress_iff⟩

/-- The first operand is there, though nothing is stored that far; the second is relative to a base from which
it is out of range, and that the target would be negative does not come up. -/
theorem step_error_attributed_overflow :
    let m : Machine :=
      { ofMemory #[] [] ⟨#[2001, 6, 9223372036854775807, -1], .grow, 16⟩ with regs := ⟨0, 1⟩ }
    m.state.isTerminal = false ∧ m.mem.size ≤ Memory.ceiling ∧
      m.step.1 = .error (.memory (.addressOverflow 1 9223372036854775807)) ∧
      m.step? = some m.step ∧
      m.flaw? ⟨0, 2001, ⟨.add, [.position, .relative, .position]⟩⟩ 2 = some (.negativeAddress (-1)) := by
  intro m
  have hd : decode 2001 = .ok ⟨.add, [.position, .relative, .position]⟩ := by decide +kernel
  obtain ⟨hguarded, _, _, _, hblames, hflaws⟩ := step_error_attributed (m := m) rfl (by decide)
  refine ⟨rfl, by decide, ?_, hguarded, ?_⟩
  · refine (hblames _).mpr (.param (a := 0) (k := 1) rfl (by decide) hd (by decide) (by decide) ?_ ?_)
    · exact ((hflaws _ 1).1 _ _).mpr ⟨by decide, by decide, by decide, rfl, by decide⟩
    · decide
  · exact ((hflaws _ 2).2 _).mpr ⟨by decide, by decide, by decide, by decide⟩

end Steps

end Machine

end Intcode
