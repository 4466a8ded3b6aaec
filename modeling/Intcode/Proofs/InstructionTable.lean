import Intcode.Proofs.Decode
import Intcode.Proofs.Operands
import Intcode.Proofs.Step
set_option autoImplicit false

/-!
The instruction table. Each instruction has a row that says what it writes, where it goes on, and what
happens to the queues and the relative base, all in exact integers over the tape as it was before. A step
carries out the row of the instruction at the program counter, and does so whenever there is one whose
parameters are all accessible.
-/
namespace Intcode

namespace Machine

variable (m : Machine) (f : Fetched)

/-- The instruction `f` stands at the program counter and nothing is in its way. -/
structure Enabled : Prop where
  pc : (f.pc : Int) = m.regs.pc.toInt
  inside : f.pc < m.mem.size
  word : f.word = m.mem.tape f.pc
  decodes : decode f.word = .ok f.instruction
  fed : f.instruction.opcode = .input → m.input ≠ []
  params : ∀ k < f.instruction.opcode.arity, m.mem.Readable (f.pc + 1 + k)
  addresses : ∀ k < f.instruction.opcode.arity, f.instruction.modeAt k ≠ .immediate →
    0 ≤ m.place f k ∧ m.place f k ≤ Cell.greatest
  reads : ∀ k < f.instruction.opcode.arity, f.instruction.opcode.access k = .read →
    f.instruction.modeAt k ≠ .immediate → m.mem.Readable (m.place f k).toNat
  writes : ∀ k < f.instruction.opcode.arity, f.instruction.opcode.access k = .write →
    m.mem.Writable (m.place f k).toNat

namespace Table

def written? : Option (Nat × Cell) :=
  let a := (m.argument f 0).toInt
  let b := (m.argument f 1).toInt
  match f.instruction.opcode with
  | .add => some ((m.place f 2).toNat, Int64.ofInt (a + b))
  | .multiply => some ((m.place f 2).toNat, Int64.ofInt (a * b))
  | .lessThan => some ((m.place f 2).toNat, if a < b then 1 else 0)
  | .equals => some ((m.place f 2).toNat, if a = b then 1 else 0)
  | .input => m.input.head?.map fun value => ((m.place f 0).toNat, value)
  | _ => none

def onward : Cell := Int64.ofInt (min (m.regs.pc.toInt + f.instruction.opcode.width) Cell.greatest)

def pc : Cell :=
  match f.instruction.opcode with
  | .jumpIfTrue => if (m.argument f 0).toInt ≠ 0 then m.argument f 1 else onward m f
  | .jumpIfFalse => if (m.argument f 0).toInt = 0 then m.argument f 1 else onward m f
  | .halt => m.regs.pc
  | _ => onward m f

def relativeBase : Cell :=
  if f.instruction.opcode = .adjustRelativeBase then
    Int64.ofInt (m.regs.relativeBase.toInt + (m.argument f 0).toInt)
  else m.regs.relativeBase

end Table

/-- The machine after the instruction `f`, as the table has it. -/
def table : Machine where
  regs := { pc := Table.pc m f, relativeBase := Table.relativeBase m f }
  mem := match Table.written? m f with
    | some (address, value) => m.mem.put address value
    | none => m.mem
  state := if f.instruction.opcode = .halt then .halted else .running
  steps := m.steps + 1
  input := if f.instruction.opcode = .input then m.input.tail else m.input
  output := if f.instruction.opcode = .output then m.output.push (m.argument f 0) else m.output
  program := m.program
  tracing := m.tracing
  trace := if m.tracing then m.trace.push (m.traceEntry f) else m.trace

variable {m f}

theorem enabled_iff : m.Enabled f ↔ m.fetch = .ok f ∧
    (f.instruction.opcode = .input → m.input ≠ []) ∧
    ∀ k < f.instruction.opcode.arity, m.Accessible f k := by
  rw [fetch_eq_ok_iff]
  constructor
  · intro h
    exact ⟨⟨h.pc, h.inside, h.word, h.decodes⟩, h.fed,
      fun k hk => ⟨h.params k hk, h.addresses k hk, h.reads k hk, h.writes k hk⟩⟩
  · intro h
    rcases h with ⟨⟨hpc, hin, hw, hd⟩, hfed, hacc⟩
    exact ⟨hpc, hin, hw, hd, hfed, fun k hk => (hacc k hk).cell, fun k hk => (hacc k hk).address,
      fun k hk => (hacc k hk).read, fun k hk => (hacc k hk).write⟩

section Effects
variable {e : Effect}

theorem combine_eq_ok_iff (hd : decode f.word = .ok f.instruction)
    (ht : f.instruction.opcode.target? = some 2) {op : Cell → Cell → Cell} :
    m.combine f op = .ok e ↔ (∀ k < f.instruction.opcode.arity, m.Accessible f k) ∧
      e = .store (m.place f 2).toNat (op (m.argument f 0) (m.argument f 1)) := by
  have harity : f.instruction.opcode.arity = 3 := by
    cases hop : f.instruction.opcode <;> simp [hop, Opcode.target?, Opcode.arity] at ht ⊢
  have h0 : f.instruction.opcode.access 0 = .read := by simp [Opcode.access, ht]
  have h1 : f.instruction.opcode.access 1 = .read := by simp [Opcode.access, ht]
  have h2 : f.instruction.opcode.access 2 = .write := by simp [Opcode.access, ht]
  have hm := modeAt_target hd (by omega) h2
  unfold combine
  simp only [Fallible.bind_eq_ok, readParam_eq_ok_iff (by omega : 0 < _) h0,
    readParam_eq_ok_iff (by omega : 1 < _) h1, target_eq_ok_iff (by omega : 2 < _) h2 hm]
  constructor
  · intro h
    rcases h with ⟨_, ⟨ha0, rfl⟩, _, ⟨ha1, rfl⟩, _, ⟨ha2, rfl⟩, he⟩
    cases he
    refine ⟨?_, rfl⟩
    intro k hk
    rw [harity] at hk
    obtain rfl | rfl | rfl : k = 0 ∨ k = 1 ∨ k = 2 := by omega
    · exact ha0
    · exact ha1
    · exact ha2
  · intro h
    rcases h with ⟨h, rfl⟩
    exact ⟨_, ⟨h 0 (by omega), rfl⟩, _, ⟨h 1 (by omega), rfl⟩, _, ⟨h 2 (by omega), rfl⟩, rfl⟩

theorem branch_eq_ok_iff (harity : f.instruction.opcode.arity = 2)
    (ht : f.instruction.opcode.target? = none) {test : Cell → Bool} :
    m.branch f test = .ok e ↔ (∀ k < f.instruction.opcode.arity, m.Accessible f k) ∧
      e = if test (m.argument f 0) then .jump (m.argument f 1) else .pass := by
  have hread : ∀ k, f.instruction.opcode.access k = .read := by simp [Opcode.access, ht]
  unfold branch
  simp only [Fallible.bind_eq_ok, readParam_eq_ok_iff (by omega : 0 < _) (hread 0),
    readParam_eq_ok_iff (by omega : 1 < _) (hread 1)]
  constructor
  · intro h
    rcases h with ⟨_, ⟨ha0, rfl⟩, _, ⟨ha1, rfl⟩, he⟩
    cases he
    refine ⟨?_, rfl⟩
    intro k hk
    rw [harity] at hk
    obtain rfl | rfl : k = 0 ∨ k = 1 := by omega
    · exact ha0
    · exact ha1
  · intro h
    rcases h with ⟨h, rfl⟩
    exact ⟨_, ⟨h 0 (by omega), rfl⟩, _, ⟨h 1 (by omega), rfl⟩, rfl⟩

def planned (m : Machine) (f : Fetched) : Effect :=
  let a := m.argument f 0
  let b := m.argument f 1
  match f.instruction.opcode with
  | .add => .store (m.place f 2).toNat (a + b)
  | .multiply => .store (m.place f 2).toNat (a * b)
  | .lessThan => .store (m.place f 2).toNat (if a < b then 1 else 0)
  | .equals => .store (m.place f 2).toNat (if a = b then 1 else 0)
  | .jumpIfTrue => if a ≠ 0 then .jump b else .pass
  | .jumpIfFalse => if a = 0 then .jump b else .pass
  | .input => .accept (m.place f 0).toNat (m.input.headD 0)
  | .output => .emit a
  | .adjustRelativeBase => .shift a
  | .halt => .halt

theorem effect_eq_some_iff (hd : decode f.word = .ok f.instruction) :
    m.effect f = .ok (some e) ↔ (f.instruction.opcode = .input → m.input ≠ []) ∧
      (∀ k < f.instruction.opcode.arity, m.Accessible f k) ∧ e = m.planned f := by
  unfold effect planned
  cases hop : f.instruction.opcode with
  | add | multiply | lessThan | equals =>
    simp only [Fallible.map_eq_ok, Option.some.injEq, exists_eq_right]
    rw [combine_eq_ok_iff hd (by simp [hop, Opcode.target?])]
    simp [hop]
  | jumpIfTrue | jumpIfFalse =>
    simp only [Fallible.map_eq_ok, Option.some.injEq, exists_eq_right]
    rw [branch_eq_ok_iff (by simp [hop, Opcode.arity]) (by simp [hop, Opcode.target?])]
    simp [hop]
  | output | adjustRelativeBase =>
    have hk : 0 < f.instruction.opcode.arity := by simp [hop, Opcode.arity]
    have hr : f.instruction.opcode.access 0 = .read := by simp [hop, Opcode.access, Opcode.target?]
    simp only [Fallible.bind_eq_ok, readParam_eq_ok_iff hk hr, and_assoc, exists_and_left, exists_eq_left]
    simp [Opcode.arity, pure, Except.pure, eq_comm]
  | input =>
    have hk : 0 < f.instruction.opcode.arity := by simp [hop, Opcode.arity]
    have hw : f.instruction.opcode.access 0 = .write := by simp [hop, Opcode.access, Opcode.target?]
    cases hin : m.input with
    | nil => simp
    | cons v rest =>
      simp only [Fallible.bind_eq_ok, target_eq_ok_iff hk hw (modeAt_target hd hk hw), and_assoc,
        exists_and_left, exists_eq_left]
      simp [Opcode.arity, pure, Except.pure, eq_comm]
  | halt => simp [Opcode.arity, eq_comm]

end Effects

theorem advance_eq_onward (h : 0 ≤ m.regs.pc.toInt) :
    m.regs.advance (UInt64.ofNat f.instruction.width) = ⟨Table.onward m f, m.regs.relativeBase⟩ := by
  have hwidth : (UInt64.ofNat f.instruction.width).toInt64.toInt = f.instruction.opcode.width := by
    unfold Instruction.width
    cases f.instruction.opcode <;> rfl
  have hsum := Cell.toInt_saturatingAdd m.regs.pc (UInt64.ofNat f.instruction.width).toInt64
  rw [hwidth] at hsum
  have hpc : m.regs.pc.saturatingAdd (UInt64.ofNat f.instruction.width).toInt64 = Table.onward m f := by
    apply Int64.toInt.inj
    unfold Cell.least Cell.greatest at hsum
    unfold Table.onward Cell.greatest
    rw [hsum, Int64.toInt_ofInt_of_le (by omega) (by omega)]
    omega
  rw [Registers.advance, hpc]

theorem commit_planned (h : m.Enabled f) : m.commit f (m.planned f) = m.table f := by
  have hpc : 0 ≤ m.regs.pc.toInt := by
    have hn := h.pc
    omega
  have hregs := advance_eq_onward (f := f) hpc
  have hzero : ∀ a : Cell, a = 0 ↔ a.toInt = 0 := fun a => Int64.toInt_inj.symm
  rw [commit_eq]
  unfold planned table Table.pc Table.written? Table.relativeBase recorded
  cases hop : f.instruction.opcode with
  | add => simp [apply, hregs, Memory.store_eq_put, Int64.ofInt_add]
  | multiply => simp [apply, hregs, Memory.store_eq_put, Int64.ofInt_mul]
  | lessThan => simp [apply, hregs, Memory.store_eq_put, Int64.lt_iff_toInt_lt]
  | equals => simp [apply, hregs, Memory.store_eq_put, Int64.toInt_inj]
  | jumpIfTrue =>
    by_cases ha : m.argument f 0 = 0 <;> simp [apply, hregs, Registers.jump, ha, mt (hzero _).mpr]
  | jumpIfFalse =>
    by_cases ha : m.argument f 0 = 0 <;> simp [apply, hregs, Registers.jump, ha, mt (hzero _).mpr]
  | input =>
    cases hin : m.input with
    | nil => exact absurd hin (h.fed hop)
    | cons v rest => simp [apply, hregs, Memory.store_eq_put, hin]
  | output => simp [apply, hregs]
  | adjustRelativeBase =>
    have hshift : ∀ delta width, (m.regs.shift delta).advance width =
        ⟨(m.regs.advance width).pc, m.regs.relativeBase + delta⟩ := fun _ _ => rfl
    simp [apply, hshift, hregs, Int64.ofInt_add]
  | halt => simp [apply]

theorem planned_eq_halt_iff : m.planned f = .halt ↔ f.instruction.opcode = .halt := by
  unfold planned
  cases f.instruction.opcode with
  | jumpIfTrue | jumpIfFalse => by_cases ha : m.argument f 0 = 0 <;> simp [ha]
  | _ => simp

theorem step_of_enabled (ht : m.state.isTerminal = false) (h : m.Enabled f) :
    m.step = (.ok (if f.instruction.opcode = .halt then .halted else .executed f.instruction),
      m.table f) := by
  obtain ⟨hf, hfed, hacc⟩ := enabled_iff.mp h
  have he := (effect_eq_some_iff h.decodes).mpr ⟨hfed, hacc, rfl⟩
  rw [step_of_effect ht hf he, commit_planned h]
  simp only [planned_eq_halt_iff]

theorem enabled_of_step (ht : m.state.isTerminal = false) {s : Step} {after : Machine}
    (h : m.step = (.ok s, after)) (hs : s ≠ .blocked) : ∃ f, m.Enabled f := by
  obtain ⟨e, hf, hstep⟩ | ⟨f, hf, ⟨e, he, hstep⟩ | ⟨he, hstep⟩ | ⟨e, he, hstep⟩⟩ := step_cases ht
  · simp [h] at hstep
  · simp [h] at hstep
  · simp [h, hs] at hstep
  · have hd := (fetch_eq_ok_iff.mp hf).2.2.2
    obtain ⟨hfed, hacc, _⟩ := (effect_eq_some_iff hd).mp he
    exact ⟨f, enabled_iff.mpr ⟨hf, hfed, hacc⟩⟩

/-- A step executes an instruction exactly where one is enabled, and leaves the machine as the table has it. -/
theorem step_eq_table (m : Machine) (ht : m.state.isTerminal = false) :
    ((∃ s after, m.step = (.ok s, after) ∧ s ≠ .blocked) ↔ ∃ f, m.Enabled f) ∧
    ∀ f, m.Enabled f →
      m.step = (.ok (if f.instruction.opcode = .halt then .halted else .executed f.instruction),
        m.table f) := by
  refine ⟨⟨?_, ?_⟩, fun f h => step_of_enabled ht h⟩
  · intro h
    rcases h with ⟨s, after, h, hs⟩
    exact enabled_of_step ht h hs
  · intro h
    rcases h with ⟨f, h⟩
    refine ⟨_, _, step_of_enabled ht h, ?_⟩
    split <;> simp

/-- An addition whose first operand is its own opcode word and whose target is past the end of memory. -/
theorem step_eq_table_add :
    let m : Machine :=
      { ofMemory #[] [] ⟨#[21201, -5, 7, 4], .grow, 16⟩ with regs := ⟨0, 5⟩ }
    let f : Fetched := ⟨0, 21201, ⟨.add, [.relative, .immediate, .relative]⟩⟩
    m.Enabled f ∧ m.step = (.ok (.executed f.instruction), m.table f) ∧
      (m.table f).mem.cells = #[21201, -5, 7, 4, 0, 0, 0, 0, 0, 21208] := by
  intro m f
  have h : m.Enabled f :=
    { pc := by decide
      inside := by decide
      word := by decide
      decodes := Fallible.toOption_eq_some.mp (by decide +kernel)
      fed := by decide
      params := by decide
      addresses := by decide
      reads := by decide
      writes := by decide }
  exact ⟨h, (step_eq_table m rfl).2 f h, by decide +kernel⟩

end Machine

end Intcode
