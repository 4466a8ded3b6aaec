import Intcode.Proofs.AssemblyText
import Intcode.Proofs.Attempts
import Intcode.Proofs.TraceRecord
set_option autoImplicit false

/-!
The disassembler beside the engine. Both read the word at the program counter alike, but the line of a
listing ends with the memory, while the engine reads zeros beyond. So a line is data where the engine finds
no instruction, or one that is not there as a whole; every other line is the instruction that a step
attempts, with the parameters that it fetches, and ends where a step that does not jump goes on.
-/
namespace Intcode

namespace Listing

variable {cells : Array Cell} {a : Nat} {i : Instruction}

theorem text_eq_data_iff {word : Cell} :
    (lineAt cells a).text = s!"DATA {word}" ↔ (lineAt cells a).statement = .data word :=
  Statement.text_inj (t := .data word) (complete_lineAt cells a) trivial

theorem exists_data_iff :
    (∃ word : Cell, (lineAt cells a).text = s!"DATA {word}") ↔ ∀ i, ¬ Whole cells a i := by
  simp only [text_eq_data_iff]
  constructor
  · intro h
    obtain ⟨word, hword⟩ := h
    intro i hi
    rw [lineAt_of_whole hi] at hword
    cases hword
  · intro h
    rw [lineAt_of_not_whole h]
    exact ⟨_, rfl⟩

theorem whole_iff : Whole cells a i ↔ decode (cells.getD a 0) = .ok i ∧ a + i.opcode.arity < cells.size :=
  Iff.rfl

theorem forall_not_whole_iff : (∀ i, ¬ Whole cells a i) ↔
    (∃ cause, decode (cells.getD a 0) = .error cause) ∨
      ∃ i, decode (cells.getD a 0) = .ok i ∧ cells.size ≤ a + i.opcode.arity := by
  simp only [whole_iff]
  cases decode (cells.getD a 0) <;> simp

end Listing

namespace Machine

section Errors
variable {m : Machine} {f : Fetched} {k a : Nat} {e : MachineError}

theorem operand_error_memory (hk : k < f.instruction.opcode.arity) (h : m.operand f k = .error e) :
    ∃ cause, e = .memory cause := by
  unfold operand Instruction.mode at h
  simp only [hk, if_true, Fallible.bind_eq_error, Fallible.mapError_eq_error] at h
  obtain ⟨_, hmode, _⟩ | ⟨_, _, ⟨cause, _, rfl⟩ | ⟨_, _, cause, _, rfl⟩⟩ := h
  · cases hmode
  · exact ⟨cause, rfl⟩
  · exact ⟨cause, rfl⟩

theorem operand_address (hk : k < f.instruction.opcode.arity) (hm : f.instruction.modeAt k ≠ .immediate)
    {o : Operand} (h : m.operand f k = .ok o) : ∃ u, o = .address u := by
  obtain ⟨_, hresolve⟩ := (operand_eq_ok_iff hk).mp h
  obtain ⟨_, u, hu, _⟩ | ⟨_, e, he⟩ := resolve_cases (m := m) hm
  · rw [hu] at hresolve
    exact ⟨u, (Except.ok.inj hresolve).symm⟩
  · rw [he] at hresolve
    cases hresolve

theorem demand_error_memory (hd : decode f.word = .ok f.instruction) (hk : k < f.instruction.opcode.arity)
    (h : m.demand f k = .error e) : ∃ cause, e = .memory cause := by
  cases ha : f.instruction.opcode.access k with
  | read =>
    rw [demand_of_read ha, Fallible.map_eq_error, readParam, Fallible.bind_eq_error] at h
    obtain h | ⟨o, _, h⟩ := h
    · exact operand_error_memory hk h
    · cases o with
      | value v => cases h
      | address u =>
        obtain ⟨cause, _, rfl⟩ := Fallible.mapError_eq_error.mp h
        exact ⟨cause, rfl⟩
  | write =>
    rw [demand_of_write ha, Fallible.map_eq_error, target, Fallible.bind_eq_error] at h
    obtain h | ⟨o, ho, h⟩ := h
    · exact operand_error_memory hk h
    -- A target is never immediate in an instruction that has been decoded.
    · obtain ⟨u, rfl⟩ := operand_address hk (modeAt_target hd hk ha) ho
      obtain h | ⟨_, _, h⟩ := Fallible.bind_eq_error.mp h
      · obtain ⟨cause, _, rfl⟩ := Fallible.mapError_eq_error.mp h
        exact ⟨cause, rfl⟩
      · cases h

theorem effect_error_memory (hd : decode f.word = .ok f.instruction) (h : m.effect f = .error e) :
    ∃ cause, e = .memory cause := by
  obtain ⟨_, k, hk, hfail, _⟩ := effect_eq_error_iff.mp h
  exact demand_error_memory hd hk hfail

theorem fetch_undecodable (hpc : m.regs.pc.toInt = a) (hin : a < m.mem.size) {cause : DecodeError}
    (hd : decode (m.mem.tape a) = .error cause) : m.fetch = .error (.decode a cause) := by
  obtain ⟨hneg, hnat⟩ := Cell.address_of_toInt hpc
  simp only [fetch, hneg, if_false, hnat, Memory.tape_eq_getElem hin, hd]

theorem fetch_decoded (hpc : m.regs.pc.toInt = a) (hin : a < m.mem.size) {i : Instruction}
    (hd : decode (m.mem.tape a) = .ok i) : m.fetch = .ok ⟨a, m.mem.tape a, i⟩ :=
  fetch_eq_ok_iff.mpr ⟨hpc.symm, hin, rfl, hd⟩

theorem step_error_decode_iff (ht : m.state.isTerminal = false) (hpc : m.regs.pc.toInt = a)
    (hin : a < m.mem.size) : (∃ place cause, m.step.1 = .error (.decode place cause)) ↔
      ∃ cause, decode (m.mem.tape a) = .error cause := by
  cases hd : decode (m.mem.tape a) with
  | error cause =>
    rw [step_of_fetch_error ht (fetch_undecodable hpc hin hd)]
    exact iff_of_true ⟨a, cause, rfl⟩ ⟨cause, rfl⟩
  | ok i =>
    have hfetch := fetch_decoded hpc hin hd
    refine iff_of_false ?_ (by simp)
    intro h
    obtain ⟨place, cause, h⟩ := h
    obtain ⟨e, hf, _⟩ | ⟨f, hf, ⟨e, he, hs⟩ | ⟨_, hs⟩ | ⟨e, _, hs⟩⟩ := step_cases ht
    · rw [hfetch] at hf
      cases hf
    · obtain ⟨memory, rfl⟩ := effect_error_memory (fetch_eq_ok_iff.mp hf).2.2.2 he
      rw [hs] at h
      cases h
    · rw [hs] at h
      cases h
    · rw [hs] at h
      cases h

end Errors

section Attempt
variable {m after : Machine} {f : Fetched} {s : Step} {k : Nat}

/-- The instruction is a jump, and its condition holds. -/
def TakesJump (m : Machine) (f : Fetched) : Prop :=
  match f.instruction.opcode with
  | .jumpIfTrue => (m.argument f 0).toInt ≠ 0
  | .jumpIfFalse => (m.argument f 0).toInt = 0
  | _ => False

theorem pc_of_not_takesJump (h : ¬ m.TakesJump f) (hhalt : f.instruction.opcode ≠ .halt) :
    Table.pc m f = Table.onward m f := by
  unfold TakesJump at h
  unfold Table.pc
  cases hop : f.instruction.opcode with
  | jumpIfTrue | jumpIfFalse =>
    rw [hop] at h
    exact if_neg h
  | halt => exact absurd hop hhalt
  | _ => rfl

theorem valid_of_step (hf : m.fetch = .ok f) (h : m.step = (.ok s, after)) (hs : s ≠ .blocked) :
    Execution.Valid ⟨m, f⟩ := by
  have ht := not_terminal_of_step_ok h
  obtain ⟨g, hg⟩ := enabled_of_step ht h hs
  obtain rfl : f = g := Except.ok.inj (hf.symm.trans (enabled_iff.mp hg).1)
  exact ⟨ht, hg, by rw [step_of_enabled ht hg]⟩

/-- The line shows the instruction that was fetched. Its text is the mnemonic of the opcode and, behind it,
each parameter as its mode is written, and no other statement has that text. The parameters are the ones that
are fetched and recorded, and the line ends where the instruction does. -/
structure ShownBy (m : Machine) (f : Fetched) (l : Line) (params : List Cell) : Prop where
  address : l.address = f.pc
  statement : l.statement = .instruction f.instruction params
  text : l.text.toList = f.instruction.opcode.mnemonic.toList ++ if params = [] then [] else
    ' ' :: [',', ' '].intercalate (List.zipWith Statement.operandChars f.instruction.modes params)
  only : ∀ s : Statement, s.Complete → s.text = l.text → s = .instruction f.instruction params
  width : l.width = f.instruction.width
  length : params.length = f.instruction.opcode.arity
  fetched : ∀ k raw, params[k]? = some raw → m.mem.read (f.pc + 1 + k) = .ok raw ∧
    m.operand f k = (m.regs.resolve raw (f.instruction.modeAt k)).mapError .memory
  recorded : m.tracing = true → ∀ s after, m.step = (.ok s, after) → s ≠ .blocked →
    ∃ e, after.trace = m.trace.push e ∧ e.pc = m.regs.pc ∧
      f.instruction = ⟨e.opcode, e.params.map TraceParam.mode⟩ ∧ e.params.map TraceParam.raw = params
  onward : ∀ i after, m.step = (.ok (.executed i), after) → i = f.instruction ∧
    (¬ m.TakesJump f → after.regs.pc.toInt = l.address + l.width)

theorem operand_of_read (hk : k < f.instruction.opcode.arity) {raw : Cell}
    (h : m.mem.read (f.pc + 1 + k) = .ok raw) :
    m.operand f k = (m.regs.resolve raw (f.instruction.modeAt k)).mapError .memory := by
  simp only [operand, Instruction.mode, if_pos hk, h, Fallible.mapError_ok]
  rfl

theorem raws_of_entry (h : Execution.Valid ⟨m, f⟩) {params : List Cell}
    (hlength : params.length = f.instruction.opcode.arity)
    (hread : ∀ k raw, params[k]? = some raw → m.mem.read (f.pc + 1 + k) = .ok raw) :
    (m.traceEntry f).params.map TraceParam.raw = params := by
  have hentry := h.describes
  have harity : (m.traceEntry f).params.length = f.instruction.opcode.arity := hentry.arity
  apply List.ext_getElem (by rw [List.length_map, harity, hlength])
  intro k hk hk'
  rw [List.length_map] at hk
  have hrecord := (hentry.params k _ (List.getElem?_eq_getElem hk)).raw
  rw [hread k _ (List.getElem?_eq_getElem hk')] at hrecord
  rw [List.getElem_map]
  exact (Except.ok.inj hrecord).symm

theorem toInt_pc_of_not_takesJump (h : Execution.Valid ⟨m, f⟩) (hhalt : f.instruction.opcode ≠ .halt)
    (hjump : ¬ m.TakesJump f) (hroom : m.mem.size ≤ Memory.ceiling) :
    (m.table f).regs.pc.toInt = f.pc + f.instruction.width := by
  have hplace : (f.pc : Int) = m.regs.pc.toInt := h.enabled.pc
  have honward : (Table.onward m f).toInt = (m.traceEntry f).onward :=
    h.toInt_onward.trans (h.min_onward hroom)
  calc (m.table f).regs.pc.toInt
      = (Table.onward m f).toInt := by rw [← pc_of_not_takesJump hjump hhalt]; rfl
    _ = m.regs.pc.toInt + f.instruction.opcode.arity + 1 := honward
    _ = f.pc + f.instruction.width := by
      rw [Instruction.width, Opcode.width]
      omega

theorem onward_of_executed (hf : m.fetch = .ok f) (hroom : m.mem.size ≤ Memory.ceiling) {i : Instruction}
    (h : m.step = (.ok (.executed i), after)) : i = f.instruction ∧
      (¬ m.TakesJump f → after.regs.pc.toInt = f.pc + f.instruction.width) := by
  have hvalid := valid_of_step hf h (by simp)
  have htable := step_of_enabled hvalid.live hvalid.enabled
  rw [h] at htable
  by_cases hhalt : f.instruction.opcode = .halt
  · rw [if_pos hhalt] at htable
    cases htable
  · rw [if_neg hhalt] at htable
    cases htable
    exact ⟨rfl, fun hjump => toInt_pc_of_not_takesJump hvalid hhalt hjump hroom⟩

theorem read_of_extract {start stop : Nat} {raw : Cell}
    (h : (m.mem.cells.extract start stop).toList[k]? = some raw) : m.mem.read (start + k) = .ok raw := by
  rw [Array.getElem?_toList, Array.getElem?_extract] at h
  split at h
  · rw [Memory.read, h]
  · cases h

theorem shownBy_of_whole (hf : m.fetch = .ok f) (hroom : m.mem.size ≤ Memory.ceiling)
    (hwhole : Listing.Whole m.mem.cells f.pc f.instruction) :
    ∃ params, m.ShownBy f (Listing.lineAt m.mem.cells f.pc) params := by
  have hline := Listing.lineAt_of_whole hwhole
  have hcomplete := Listing.complete_lineAt m.mem.cells f.pc
  rw [hline] at hcomplete ⊢
  have ⟨hmodes, hlength⟩ := hcomplete
  refine ⟨_, rfl, rfl, Statement.toList_text_instruction (hmodes.trans hlength.symm), ?_, rfl, hlength,
    ?_, ?_, ?_⟩
  · intro s hs htext
    exact (Statement.text_inj hs hcomplete).mp htext
  · intro k raw hk
    obtain ⟨hin, _⟩ := List.getElem?_eq_some_iff.mp hk
    have hread := read_of_extract hk
    exact ⟨hread, operand_of_read (hlength ▸ hin) hread⟩
  · intro htracing s after hstep hs
    have hvalid := valid_of_step hf hstep hs
    have hafter : after = m.table f := by rw [← hvalid.table, hstep]
    refine ⟨m.traceEntry f, ?_, rfl, hvalid.describes.instruction, ?_⟩
    · rw [hafter]
      simp only [table, htracing, if_true]
    · exact raws_of_entry hvalid hlength fun k raw hk => read_of_extract hk
  · intro i after hstep
    exact onward_of_executed hf hroom hstep

end Attempt

end Machine

namespace Debugger

theorem status_step {d : Debugger} {a : Nat} {i : Instruction} (hpc : d.machine.regs.pc.toInt = a)
    (h : d.machine.step.1 = .ok (.executed i)) :
    d.step.status =
      "PC=" ++ Text.Decimal.padded 4 a ++ ": " ++ (Listing.lineAt d.machine.mem.cells a).text := by
  have hstep : d.machine.step = (.ok (.executed i), d.machine.step.2) := Prod.ext h rfl
  have ht := Machine.not_terminal_of_step_ok hstep
  obtain ⟨hneg, hnat⟩ := Cell.address_of_toInt hpc
  simp only [Debugger.step, ht, h, stepStatus, pc, hpc, instructionText, hneg, hnat]
  rfl

end Debugger

namespace Machine

/-- The line at the program counter is data exactly where a step finds no instruction, or one with a parameter
past the end of memory. Otherwise its text tells the instruction that a step attempts: the mnemonic, the
operands by their modes and the raw numbers, which can be told of no other instruction. And the debugger tells
of an instruction that has been executed what was there before. -/
theorem disassembly_agrees {m : Machine} (ht : m.state.isTerminal = false) {a : Nat}
    (hpc : m.regs.pc.toInt = a) (hin : a < m.mem.size) (hroom : m.mem.size ≤ Memory.ceiling) :
    ((∃ word : Cell, (Listing.lineAt m.mem.cells a).text = s!"DATA {word}") ↔
      (∃ place cause, m.step.1 = .error (.decode place cause)) ∨
        ∃ i, decode (m.mem.cells.getD a 0) = .ok i ∧ m.mem.size ≤ a + i.opcode.arity) ∧
    ((¬ ∃ word : Cell, (Listing.lineAt m.mem.cells a).text = s!"DATA {word}") →
      ∃ f params, m.fetch = .ok f ∧ f.pc = a ∧ m.ShownBy f (Listing.lineAt m.mem.cells a) params) ∧
    ∀ d : Debugger, d.machine = m → ∀ i, m.step.1 = .ok (.executed i) → d.step.status =
      "PC=" ++ Text.Decimal.padded 4 a ++ ": " ++ (Listing.lineAt m.mem.cells a).text := by
  rw [step_error_decode_iff ht hpc hin, Listing.exists_data_iff]
  refine ⟨?_, ?_, ?_⟩
  · exact Listing.forall_not_whole_iff
  · intro hwhole
    obtain ⟨i, hi⟩ := not_forall_not.mp hwhole
    have hfetch := fetch_decoded hpc hin hi.1
    obtain ⟨params, hshows⟩ := shownBy_of_whole hfetch hroom hi
    exact ⟨_, params, hfetch, rfl, hshows⟩
  · rintro d rfl i h
    exact Debugger.status_step hpc h

/-- An addition that puts its sum in its own place. The debugger tells of the addition, not of the sum. -/
theorem disassembly_agrees_overwritten :
    let m : Machine := { ofMemory #[] [] ⟨#[1101, 5, 7, 0], .strict, 4⟩ with tracing := true }
    (Listing.lineAt m.mem.cells 0).text = "ADD 5, 7, [0]" ∧
      (∃ f params, m.fetch = .ok f ∧ m.ShownBy f (Listing.lineAt m.mem.cells 0) params) ∧
      (Listing.lineAt m.step.2.mem.cells 0).text = "DATA 12" ∧
      ∀ d : Debugger, d.machine = m → d.step.status = "PC=0000: ADD 5, 7, [0]" := by
  intro m
  have htext : (Listing.lineAt m.mem.cells 0).text = "ADD 5, 7, [0]" := by decide +kernel
  have hwhole : Listing.Whole m.mem.cells 0 ⟨.add, [.immediate, .immediate, .position]⟩ :=
    ⟨Fallible.toOption_eq_some.mp (by decide +kernel), by decide⟩
  obtain ⟨_, hshows, hstatus⟩ := disassembly_agrees (m := m) rfl (a := 0) rfl (by decide) (by decide)
  refine ⟨htext, ?_, by decide +kernel, ?_⟩
  · obtain ⟨f, params, hf, _, h⟩ := hshows fun hdata => Listing.exists_data_iff.mp hdata _ hwhole
    exact ⟨f, params, hf, h⟩
  · intro d hd
    have hstep : m.step.1 = .ok (.executed ⟨.add, [.immediate, .immediate, .position]⟩) :=
      Fallible.toOption_eq_some.mp (by decide +kernel)
    rw [hstatus d hd _ hstep, htext]
    decide +kernel

end Machine

end Intcode
