import Intcode.Proofs.Budget
import Intcode.Proofs.History
import Intcode.Proofs.NumberText
import Intcode.Proofs.Restart
set_option autoImplicit false

/-!
The trace tells what happened. Entries are made from the machine before the instruction runs, with reads
of their own that fall back on a default. When the instruction does run, none of these reads has failed,
and what they have found is what the instruction uses.
-/
namespace Intcode

open Machine

/-- The record of a parameter is what the instruction found there. A read parameter has the operand the
instruction used for its value, and a target has the address that was written. -/
structure TraceParam.Describes (p : TraceParam) (x : Execution) (k : Nat) : Prop where
  mode : p.mode = x.fetched.instruction.modeAt k
  access : p.access = x.fetched.instruction.opcode.access k
  raw : x.machine.mem.read (x.fetched.pc + 1 + k) = .ok p.raw
  read : p.access = .read → ∃ value, p.value = some value ∧ x.machine.readParam x.fetched k = .ok value
  write : p.access = .write → p.value = none ∧ ∃ address value, p.address = some address ∧
    Table.written? x.machine x.fetched = some (address.toNat, value)

/-- The record of an instruction is what the instruction was, and no operand is missing from the line that
a person reads. -/
structure TraceEntry.Describes (e : TraceEntry) (x : Execution) : Prop where
  step : e.step = x.machine.steps
  pc : e.pc = x.machine.regs.pc
  place : (x.fetched.pc : Int) = e.pc.toInt
  word : x.machine.mem.read x.fetched.pc = .ok e.word
  relativeBase : e.relativeBase = x.machine.regs.relativeBase
  instruction : x.fetched.instruction = ⟨e.opcode, e.params.map TraceParam.mode⟩
  decodes : decode e.word = .ok x.fetched.instruction
  arity : e.params.length = e.opcode.arity
  params : ∀ k (p : TraceParam), e.params[k]? = some p → p.Describes x k
  shown : '?' ∉ e.describe.toList

namespace Machine
variable {m : Machine} {f : Fetched} {k : Nat}

theorem traceParam_immediate (h : m.Accessible f k) (hm : f.instruction.modeAt k = .immediate) :
    m.traceParam f k (f.instruction.modeAt k) =
      { mode := .immediate
        access := f.instruction.opcode.access k
        raw := m.raw f k
        address := none
        value := if f.instruction.opcode.access k = .read then some (m.argument f k) else none } := by
  have hraw := Memory.read_eq_ok_iff.mpr ⟨h.cell, rfl⟩
  cases ha : f.instruction.opcode.access k <;>
    simp [traceParam, hraw, hm, ha, argument, raw, Registers.resolve, Except.toOption]

theorem traceParam_address (h : m.Accessible f k) (hm : f.instruction.modeAt k ≠ .immediate) :
    ∃ address : Count, address.toNat = (m.place f k).toNat ∧
      m.traceParam f k (f.instruction.modeAt k) =
        { mode := f.instruction.modeAt k
          access := f.instruction.opcode.access k
          raw := m.raw f k
          address := some address
          value := if f.instruction.opcode.access k = .read then some (m.argument f k) else none } := by
  obtain ⟨_, address, hresolve, haddress⟩ | ⟨hout, _⟩ := resolve_cases (m := m) hm
  · refine ⟨address, haddress, ?_⟩
    have hraw := Memory.read_eq_ok_iff.mpr ⟨h.cell, rfl⟩
    have hresolve' : m.regs.resolve (m.mem.tape (f.pc + 1 + k)) (f.instruction.modeAt k) =
      .ok (.address address) := hresolve
    cases ha : f.instruction.opcode.access k with
    | read =>
      have hvalue := Memory.read_eq_ok_iff.mpr ⟨h.read ha hm, rfl⟩
      simp [traceParam, hraw, hresolve', ha, haddress, hvalue, argument, hm, raw, Except.toOption]
    | write => simp [traceParam, hraw, hresolve', ha, raw, Except.toOption]
  · exact absurd (h.address hm) hout

theorem written?_target (h : m.Enabled f) (ha : f.instruction.opcode.access k = .write) :
    ∃ value, Table.written? m f = some ((m.place f k).toNat, value) := by
  have htarget : f.instruction.opcode.target? = some k := by
    unfold Opcode.access at ha
    split at ha
    · assumption
    · cases ha
  unfold Table.written?
  cases hop : f.instruction.opcode with
  | add | multiply | lessThan | equals =>
    obtain rfl : 2 = k := by simpa [hop, Opcode.target?] using htarget
    exact ⟨_, rfl⟩
  | input =>
    obtain rfl : 0 = k := by simpa [hop, Opcode.target?] using htarget
    cases hin : m.input with
    | nil => exact absurd hin (h.fed hop)
    | cons value rest => exact ⟨value, rfl⟩
  | output | jumpIfTrue | jumpIfFalse | adjustRelativeBase | halt => simp [hop, Opcode.target?] at htarget

end Machine

section Params
variable {x : Execution} {k : Nat}

theorem Execution.Valid.accessible (h : x.Valid) (hk : k < x.fetched.instruction.opcode.arity) :
    x.machine.Accessible x.fetched k := (enabled_iff.mp h.enabled).2.2 k hk

theorem Execution.Valid.describes_traceParam (h : x.Valid) (hk : k < x.fetched.instruction.opcode.arity) :
    (x.machine.traceParam x.fetched k (x.fetched.instruction.modeAt k)).Describes x k := by
  have hacc := h.accessible hk
  have hraw : x.machine.mem.read (x.fetched.pc + 1 + k) = .ok (x.machine.raw x.fetched k) :=
    Memory.read_eq_ok_iff.mpr ⟨hacc.cell, rfl⟩
  by_cases hm : x.fetched.instruction.modeAt k = .immediate
  · rw [traceParam_immediate hacc hm]
    refine ⟨hm.symm, rfl, hraw, ?_, ?_⟩
    · intro ha
      exact ⟨_, if_pos ha, (readParam_eq_ok_iff hk ha).mpr ⟨hacc, rfl⟩⟩
    · intro ha
      exact absurd hm (modeAt_target h.enabled.decodes hk ha)
  · obtain ⟨address, haddress, heq⟩ := traceParam_address hacc hm
    rw [heq]
    refine ⟨rfl, rfl, hraw, ?_, ?_⟩
    · intro ha
      exact ⟨_, if_pos ha, (readParam_eq_ok_iff hk ha).mpr ⟨hacc, rfl⟩⟩
    · intro ha
      obtain ⟨value, hwritten⟩ := written?_target h.enabled ha
      rw [← haddress] at hwritten
      exact ⟨if_neg (by simp [show x.fetched.instruction.opcode.access k = .write from ha]),
        address, value, rfl, hwritten⟩

end Params

theorem TraceParam.question_not_mem_describe {p : TraceParam} (h : p.access = .read → p.value ≠ none)
    (k : Nat) : '?' ∉ (p.describe k).toList := by
  have hvalue : ∀ n : Int, '?' ∉ n.repr.toList := Text.not_mem_repr rfl (by decide)
  have haddress : ∀ n : Nat, '?' ∉ Nat.toDigits 10 n := Text.not_mem_toDigits rfl
  have hmode : '?' ∉ p.mode.adjective.toList := by cases p.mode <;> decide
  have houtcome : '?' ∉ p.outcome.toList := by
    unfold TraceParam.outcome
    cases ha : p.access with
    | write => simp
    | read =>
      cases hv : p.value with
      | none => exact absurd hv (h ha)
      | some value => simp [toString, hvalue]
  unfold TraceParam.describe
  cases p.address <;> simp [hmode, houtcome, toString, haddress]

theorem TraceEntry.question_not_mem_describe {e : TraceEntry}
    (h : ∀ p ∈ e.params, p.access = .read → p.value ≠ none) : '?' ∉ e.describe.toList := by
  have hpadded : ∀ width n, '?' ∉ (Text.Decimal.padded width n).toList :=
    Text.not_mem_padded rfl (by decide)
  have hvalue : ∀ n : Int, '?' ∉ n.repr.toList := Text.not_mem_repr rfl (by decide)
  have hmnemonic : '?' ∉ (Text.alignLeft 4 e.opcode.mnemonic).toList := by cases e.opcode <;> decide
  have hparams : ∀ k (hk : k < e.params.length), '?' ∉ (e.params[k].describe k).toList := fun k hk =>
    TraceParam.question_not_mem_describe (h _ (List.getElem_mem hk)) k
  simp [TraceEntry.describe, hmnemonic, hparams, toString, hvalue, hpadded]

def Execution.entry (x : Execution) : TraceEntry := x.machine.traceEntry x.fetched

def Execution.noted (x : Execution) : List TraceEntry := if x.machine.tracing then [x.entry] else []

def TraceEntry.operand? (e : TraceEntry) (k : Nat) : Option Cell := e.params[k]?.bind TraceParam.value

def TraceEntry.goal? (e : TraceEntry) : Option Cell :=
  match e.opcode with
  | .jumpIfTrue => if e.operand? 0 ≠ some 0 then e.operand? 1 else none
  | .jumpIfFalse => if e.operand? 0 = some 0 then e.operand? 1 else none
  | _ => none

def TraceEntry.onward (e : TraceEntry) : Int := e.pc.toInt + e.opcode.arity + 1

/-- The second instruction stands where the first has led. The program counter stops at the largest cell. -/
def TraceEntry.LeadsTo (e e' : TraceEntry) : Prop :=
  e'.pc.toInt = (e.goal?.map Int64.toInt).getD (min e.onward Cell.greatest)

section Entries
variable {x : Execution}

theorem Execution.Valid.describes (h : x.Valid) : x.entry.Describes x := by
  have hmodes := (decode_eq_ok_iff.mp h.enabled.decodes).2.1
  have hparams : ∀ k (p : TraceParam), x.entry.params[k]? = some p → p.Describes x k := by
    intro k p hp
    simp only [Execution.entry, traceEntry, List.getElem?_mapIdx, Option.map_eq_some_iff] at hp
    obtain ⟨mode, hmode, rfl⟩ := hp
    obtain ⟨hk, _⟩ := List.getElem?_eq_some_iff.mp hmode
    obtain rfl : x.fetched.instruction.modeAt k = mode := by simp [Instruction.modeAt, hmode]
    exact h.describes_traceParam (hmodes ▸ hk)
  refine ⟨rfl, rfl, h.enabled.pc, ?_, rfl, ?_, h.enabled.decodes, ?_, hparams, ?_⟩
  · exact Memory.read_eq_ok_iff.mpr ⟨.inl h.enabled.inside, h.enabled.word⟩
  · have heq : x.entry.params.map TraceParam.mode = x.fetched.instruction.modes := by
      apply List.ext_getElem?
      intro k
      simp [Execution.entry, traceEntry, traceParam, Function.comp_def]
    rw [heq]
    rfl
  · simpa [Execution.entry, traceEntry] using hmodes
  · apply TraceEntry.question_not_mem_describe
    intro p hp ha
    obtain ⟨k, hk⟩ := List.getElem?_of_mem hp
    obtain ⟨value, hvalue, _⟩ := (hparams k p hk).read ha
    simp [hvalue]

theorem Execution.Valid.operand? (h : x.Valid) {k : Nat} (hk : k < x.fetched.instruction.opcode.arity)
    (ha : x.fetched.instruction.opcode.access k = .read) :
    x.entry.operand? k = some (x.machine.argument x.fetched k) := by
  have hlen : k < x.entry.params.length := by
    rw [h.describes.arity]
    exact hk
  have hp := h.describes.params k _ (List.getElem?_eq_getElem hlen)
  obtain ⟨value, hvalue, hread⟩ := hp.read (hp.access.trans ha)
  obtain ⟨_, rfl⟩ := (readParam_eq_ok_iff hk ha).mp hread
  simp [TraceEntry.operand?, hlen, hvalue]

theorem Execution.Valid.toInt_onward (h : x.Valid) :
    (Table.onward x.machine x.fetched).toInt = min x.entry.onward Cell.greatest := by
  have hplace : (x.fetched.pc : Int) = x.machine.regs.pc.toInt := h.enabled.pc
  have honward : x.entry.onward = x.machine.regs.pc.toInt + x.fetched.instruction.opcode.width := by
    simp [TraceEntry.onward, Opcode.width, Int.add_assoc, Execution.entry, traceEntry]
  rw [honward]
  unfold Table.onward Cell.greatest
  exact Int64.toInt_ofInt_of_le (by omega) (by omega)

theorem Execution.Valid.min_onward (h : x.Valid) (hsize : x.machine.mem.size ≤ Memory.ceiling) :
    min x.entry.onward Cell.greatest = x.entry.onward := by
  have hplace : (x.fetched.pc : Int) = x.entry.pc.toInt := h.enabled.pc
  have hinside := h.enabled.inside
  have harity := x.entry.opcode.arity_le
  unfold Memory.ceiling at hsize
  unfold TraceEntry.onward Cell.greatest
  omega

theorem Execution.Valid.toInt_pc (h : x.Valid) (hhalt : x.fetched.instruction.opcode ≠ .halt) :
    (Table.pc x.machine x.fetched).toInt =
      (x.entry.goal?.map Int64.toInt).getD (min x.entry.onward Cell.greatest) := by
  have hopcode : x.entry.opcode = x.fetched.instruction.opcode := rfl
  have hzero : ∀ a : Cell, a.toInt = 0 ↔ a = 0 := fun _ => Int64.toInt_inj (y := 0)
  unfold Table.pc TraceEntry.goal?
  rw [hopcode]
  cases hop : x.fetched.instruction.opcode with
  | jumpIfTrue | jumpIfFalse =>
    have htest := h.operand? (k := 0) (by simp [hop, Opcode.arity])
      (by simp [hop, Opcode.access, Opcode.target?])
    have hgoal := h.operand? (k := 1) (by simp [hop, Opcode.arity])
      (by simp [hop, Opcode.access, Opcode.target?])
    by_cases hz : x.machine.argument x.fetched 0 = 0 <;> simp [htest, hgoal, hz, hzero, h.toInt_onward]
  | halt => exact absurd hop hhalt
  | _ => simpa using h.toInt_onward

end Entries

def Call.isMove : Call → Bool
  | .assign _ => true
  | .reset => true
  | .restart => true
  | _ => false

/-- The calls after which the trace is not what it was before and what has been executed since. -/
def Call.isTraceBreak : Call → Bool
  | .setTrace _ => true
  | .restart => true
  | _ => false

def Turn.handed (t : Turn) : List TraceEntry :=
  match t.reply with
  | .trace entries => entries.toList
  | _ => []

def handed (turns : List Turn) : List TraceEntry := turns.flatMap Turn.handed

namespace Machine

def next? (m : Machine) : Option Cell := if m.state = .halted then none else some m.regs.pc

section Chain
variable {m : Machine} {turns : List Turn} {x y : Execution}

theorem leadsTo_of_next? (hx : x.Valid) (hy : y.Valid) (h : y.machine.next? = x.machine.step.2.next?) :
    x.entry.LeadsTo y.entry := by
  have hlive : y.machine.state ≠ .halted := fun heq => by simpa [heq, State.isTerminal] using hy.live
  rw [hx.table, next?, if_neg hlive, next?] at h
  by_cases hhalt : x.fetched.instruction.opcode = .halt
  · simp [table, hhalt] at h
  · simp only [table, hhalt, if_false, reduceCtorEq, Option.some.injEq] at h
    unfold TraceEntry.LeadsTo
    rw [← hx.toInt_pc hhalt, ← h]
    rfl

theorem next?_opened (m : Machine) {call : Call} (h : call.isMove = false) :
    (m.opened call).next? = m.next? := by
  cases call with
  | assign | reset | restart => cases h
  | _ => rfl

theorem History.leadsTo (h : m.History turns) (hcalls : ∀ t ∈ turns, t.call.isMove = false) :
    ((executed turns).map Execution.entry).IsChain TraceEntry.LeadsTo := by
  have hthreads := h.threads next? (fun m s hs => by simp [next?, hs]) fun m t hmem =>
    next?_opened m (hcalls t hmem)
  rw [List.isChain_map]
  refine (hthreads.isChain fun x => h.valid).imp ?_
  rintro x y ⟨hx, hy, hxy⟩
  exact leadsTo_of_next? hx hy hxy

end Chain

section Numbers
variable {m : Machine} {turns : List Turn} {a b : Count} {log : List Execution}

theorem Threads.steps (h : Threads Machine.steps a log b) (hvalid : ∀ x ∈ log, x.Valid) :
    b = a + UInt64.ofNat log.length ∧
    ∀ i (hi : i < log.length), log[i].machine.steps = a + UInt64.ofNat i := by
  induction h with
  | nil a => simp
  | @cons x log a b hx _ ih =>
    rw [List.forall_mem_cons] at hvalid
    obtain ⟨hb, hlog⟩ := ih hvalid.2
    have hstep : x.machine.step.2.steps = a + 1 := by
      rw [hvalid.1.table, ← hx]
      rfl
    have hsucc : ∀ n : Nat, a + 1 + UInt64.ofNat n = a + UInt64.ofNat (n + 1) := by
      intro n
      rw [UInt64.ofNat_add, UInt64.add_assoc, UInt64.add_comm 1]
      rfl
    rw [hstep] at hb hlog
    refine ⟨by rw [hb, hsucc, List.length_cons], ?_⟩
    intro i hi
    cases i with
    | zero => simpa using hx
    | succ i =>
      rw [← hsucc]
      exact hlog i (Nat.lt_of_succ_lt_succ hi)

theorem opened_of_not_isTraceBreak (m : Machine) {call : Call} (h : call.isTraceBreak = false) :
    (m.opened call).steps = m.steps ∧ (m.opened call).tracing = m.tracing ∧ (m.opened call).mem = m.mem := by
  cases call with
  | setTrace | restart => cases h
  | _ => exact ⟨rfl, rfl, rfl⟩

theorem History.steps (h : m.History turns) (hcalls : ∀ t ∈ turns, t.call.isTraceBreak = false) :
    (m.latest turns).steps = m.steps + UInt64.ofNat (executed turns).length ∧
    ∀ i (hi : i < (executed turns).length), (executed turns)[i].machine.steps = m.steps + UInt64.ofNat i := by
  have hthreads := h.threads Machine.steps (fun _ _ _ => rfl) fun m t hmem =>
    (opened_of_not_isTraceBreak m (hcalls t hmem)).1
  exact hthreads.steps fun x => h.valid

theorem History.toNat_steps (h : m.History turns) (hcalls : ∀ t ∈ turns, t.call.isTraceBreak = false)
    (hcount : m.steps.toNat + (executed turns).length < UInt64.size) :
    (m.latest turns).steps.toNat = m.steps.toNat + (executed turns).length ∧
    ∀ i (hi : i < (executed turns).length),
      (executed turns)[i].machine.steps.toNat = m.steps.toNat + i := by
  obtain ⟨hlatest, hnumbers⟩ := h.steps hcalls
  refine ⟨by rw [hlatest, Count.toNat_add_ofNat hcount], ?_⟩
  intro i hi
  rw [hnumbers i hi, Count.toNat_add_ofNat (by omega)]

end Numbers

section Whole
variable {m : Machine} {t : Turn} {turns : List Turn}

theorem tracing_step (m : Machine) : m.step.2.tracing = m.tracing := by
  obtain ⟨_, s, hs, _⟩ | ⟨f, _, hvalid⟩ := execution?_cases m
  · rw [hs]
  · rw [hvalid.table]
    rfl

theorem History.tracing (h : m.History turns) (hcalls : ∀ t ∈ turns, t.call.isTraceBreak = false)
    (hon : m.tracing = true) : ∀ x ∈ executed turns, x.machine.tracing = true := by
  refine h.always (P := fun m => m.tracing = true) ?_ ?_ hon
  · intro m hm
    rwa [tracing_step]
  · intro m t ht hm
    rwa [(opened_of_not_isTraceBreak m (hcalls t ht)).2.1]

theorem step_size_le_ceiling (m : Machine) (h : m.mem.size ≤ Memory.ceiling) :
    m.step.2.mem.size ≤ Memory.ceiling := by
  obtain ⟨_, hmem | ⟨n, value, hw, hmem⟩⟩ := step_mem m
  · rwa [hmem]
  · obtain ⟨_, hin | hceiling⟩ := Memory.checkWrite_eq_ok_iff.mp hw
    · rw [hmem, Memory.size_store]
      omega
    · rw [hmem, Memory.size_store]
      omega

theorem History.size_le_ceiling (h : m.History turns)
    (hcalls : ∀ t ∈ turns, t.call.isTraceBreak = false) (hsize : m.mem.size ≤ Memory.ceiling) :
    ∀ x ∈ executed turns, x.machine.mem.size ≤ Memory.ceiling := by
  refine h.always step_size_le_ceiling ?_ hsize
  intro m t ht hm
  rwa [(opened_of_not_isTraceBreak m (hcalls t ht)).2.2]

theorem Takes.trace (h : m.Takes t) (hcall : t.call.isTraceBreak = false) :
    m.trace.toList ++ t.executed.flatMap Execution.noted = t.handed ++ t.after.trace.toList := by
  have hopened : m.trace.toList = t.handed ++ (m.opened t.call).trace.toList := by
    rcases t with ⟨call, reply, executed, after⟩
    obtain ⟨fuel, ha, _⟩ := h
    cases call with
    | run input =>
      obtain ⟨_, _, rfl⟩ := answers_run_iff.mp ⟨fuel, ha⟩
      rfl
    | drainTrace =>
      cases ha
      exact (List.append_nil _).symm
    | setTrace | restart => cases hcall
    | _ =>
      cases ha
      rfl
  have hbalance := h.trail.balance (·.trace.toList) Execution.noted (fun _ => []) (fun _ _ => rfl) ?_
  · rw [flatMap_nothing, List.nil_append] at hbalance
    rw [hopened, List.append_assoc, hbalance]
  · intro x _
    cases hon : x.machine.tracing <;> simp [Execution.noted, Execution.entry, table, hon]

theorem History.trace (h : m.History turns) (hcalls : ∀ t ∈ turns, t.call.isTraceBreak = false)
    (hon : m.tracing = true) : handed turns ++ (m.latest turns).trace.toList =
      m.trace.toList ++ (executed turns).map Execution.entry := by
  have hbalance := h.balance (·.trace.toList) (fun t => t.executed.flatMap Execution.noted) Turn.handed
    fun m t hmem ht => ht.trace (hcalls t hmem)
  have hnoted : (executed turns).flatMap Execution.noted = (executed turns).map Execution.entry := by
    rw [List.map_eq_flatMap]
    apply List.flatMap_congr
    intro x hx
    simp [Execution.noted, h.tracing hcalls hon x hx]
  rw [← hnoted, executed, List.flatMap_assoc, hbalance]
  rfl

theorem History.leadsTo_during {before during later : List Turn}
    (h : m.History (before ++ during ++ later)) (hcalls : ∀ t ∈ during, t.call.isMove = false) :
    ((((executed (before ++ during ++ later)).map Execution.entry).drop (executed before).length).take
      (executed during).length).IsChain TraceEntry.LeadsTo := by
  have hduring := (history_append.mp (history_append.mp h).1).2
  have hsplit : (executed (before ++ during ++ later)).map Execution.entry =
      (executed before).map Execution.entry ++
        ((executed during).map Execution.entry ++ (executed later).map Execution.entry) := by
    simp [executed]
  rw [hsplit, List.drop_left' (by simp), List.take_left' (by simp)]
  exact hduring.leadsTo hcalls

end Whole

/-- From any machine that is traced, for any calls that leave tracing and the step count alone: the entries
handed over and those still there are the ones from before and one for each instruction executed, which
tells what that instruction was and did. They are numbered one by one, and as long as no call sets the
program counter each tells where the next one was. -/
theorem trace_faithful (m : Machine) (hon : m.tracing = true) :
    (∀ calls events, m.Session calls events → ∃ turns, m.History turns ∧ turns.map Turn.call = calls ∧
      turns.map (fun t => (t.reply, t.after)) = events) ∧
    ∀ turns, m.History turns → (∀ t ∈ turns, t.call.isTraceBreak = false) →
      ∃ recorded : List TraceEntry,
        handed turns ++ (m.latest turns).trace.toList = m.trace.toList ++ recorded ∧
        List.Forall₂ (fun e x => x.Valid ∧ e.Describes x) recorded (executed turns) ∧
        (m.steps.toNat + recorded.length < UInt64.size →
          (m.latest turns).steps.toNat = m.steps.toNat + recorded.length ∧
          ∀ i (hi : i < recorded.length), recorded[i].step.toNat = m.steps.toNat + i) ∧
        (∀ before during later, turns = before ++ during ++ later →
          (∀ t ∈ during, t.call.isMove = false) →
          ((recorded.drop (executed before).length).take (executed during).length).IsChain
            TraceEntry.LeadsTo) ∧
        (m.mem.size ≤ Memory.ceiling → ∀ e ∈ recorded, min e.onward Cell.greatest = e.onward) := by
  refine ⟨fun _ _ => Session.exists_history, ?_⟩
  intro turns h hcalls
  refine ⟨(executed turns).map Execution.entry, h.trace hcalls hon, ?_, ?_, ?_, ?_⟩
  · rw [List.forall₂_map_left_iff, List.forall₂_same]
    exact fun x hx => ⟨h.valid hx, (h.valid hx).describes⟩
  · intro hcount
    simp only [List.length_map] at hcount ⊢
    obtain ⟨hlatest, hnumbers⟩ := h.toNat_steps hcalls hcount
    refine ⟨hlatest, ?_⟩
    intro i hi
    rw [List.getElem_map]
    exact hnumbers i hi
  · rintro before during later rfl hduring
    exact h.leadsTo_during hduring
  · intro hsize e he
    obtain ⟨x, hx, rfl⟩ := List.mem_map.mp he
    exact (h.valid hx).min_onward (h.size_le_ceiling hcalls hsize x hx)

/-- A jump, an input that starves at first, a halt, and after a reset the jump again. The first entry is
drained in between. -/
theorem trace_faithful_reset :
    let m := (ofMemory #[] [] ⟨#[1105, 1, 4, 0, 3, 3, 99], .strict, 7⟩).setTrace true
    ∃ turns recorded, m.History turns ∧
      turns.map Turn.call = [.runLimited [] 5, .drainTrace, .runLimited [8] 5, .reset, .step] ∧
      recorded.map TraceEntry.pc = [0, 4, 6, 0] ∧
      recorded.map TraceEntry.goal? = [some 4, none, none, some 4] ∧
      handed turns ++ (m.latest turns).trace.toList = m.trace.toList ++ recorded ∧
      List.Forall₂ (fun e x => x.Valid ∧ e.Describes x) recorded (executed turns) ∧
      (m.latest turns).steps.toNat = m.steps.toNat + recorded.length := by
  intro m
  have h : m.History _ :=
    .cons (t := ⟨.runLimited [] 5, _, _, _⟩) ⟨0, rfl, rfl⟩ <|
    .cons (t := ⟨.drainTrace, _, _, _⟩) ⟨0, rfl, rfl⟩ <|
    .cons (t := ⟨.runLimited [8] 5, _, _, _⟩) ⟨0, rfl, rfl⟩ <|
    .cons (t := ⟨.reset, _, _, _⟩) ⟨0, rfl, rfl⟩ <|
    .cons (t := ⟨.step, _, _, _⟩) ⟨0, rfl, rfl⟩ (.nil _)
  obtain ⟨recorded, htrace, hall, hnumbers, _⟩ := (trace_faithful m rfl).2 _ h (by decide)
  have hcount : recorded.length = 4 := by
    rw [hall.length_eq]
    decide +kernel
  have hentries : recorded = _ := htrace.symm
  refine ⟨_, recorded, h, rfl, ?_, ?_, htrace, hall, (hnumbers (by rw [hcount]; decide)).1⟩
  · rw [hentries]
    decide +kernel
  · rw [hentries]
    decide +kernel

end Machine

end Intcode
