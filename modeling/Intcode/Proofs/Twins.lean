import Intcode.Proofs.InstructionTable
import Intcode.Proofs.Lockstep
set_option autoImplicit false

/-!
Two machines that differ in memory only. If every access that one memory grants is granted by the other,
with the same value, the two do the same; what has to be shown of a particular pair of memories is that
stores and reloads keep it such a pair, and what the two find at the program counter.
-/
namespace Intcode

/-- Every access has the same outcome in both memories, unless the second refuses it in such a way. -/
structure Memory.Agrees (bad : MemoryError → Prop) (b a : Memory) : Prop where
  read : ∀ address, Fallible.Unless bad (b.read address) (a.read address)
  checkWrite : ∀ address, Fallible.Unless bad (b.checkWrite address) (a.checkWrite address)

/-- A relation between the memories of two machines with one program, under which accesses agree and which
stores and reloads of the program keep. -/
structure Memory.Kept (R : Array Cell → Memory → Memory → Prop) (bad : MemoryError → Prop) : Prop where
  agrees : ∀ {program b a}, R program b a → b.Agrees bad a
  store : ∀ {program b a} address value, R program b a → a.checkWrite address = .ok () →
    R program (b.store address value) (a.store address value)
  restore : ∀ {program b a}, R program b a → R program (b.restore program) (a.restore program)

def MachineError.OfMemory (bad : MemoryError → Prop) : MachineError → Prop
  | .memory e => bad e
  | _ => False

theorem MachineError.not_ofMemory_false (e : MachineError) : ¬ e.OfMemory fun _ => False := by
  cases e <;> exact id

def Effect.written? : Effect → Option (Nat × Cell)
  | .store address value => some (address, value)
  | .accept address value => some (address, value)
  | _ => none

def Effect.onMemory (e : Effect) (mem : Memory) : Memory :=
  match e.written? with
  | some (address, value) => mem.store address value
  | none => mem

namespace Machine

def withMemory (m : Machine) (mem : Memory) : Machine := { m with mem := mem }

section Accesses
open Fallible
variable {bad : MemoryError → Prop} {m : Machine} {mem : Memory} {f : Fetched} {k : Nat}

theorem operand_unless (h : mem.Agrees bad m.mem) :
    Unless (MachineError.OfMemory bad) ((m.withMemory mem).operand f k) (m.operand f k) := by
  refine .bind (.refl _ _) fun mode => ?_
  refine .bind ((h.read _).mapError _ fun _ he => he) fun raw => ?_
  exact .refl _ _

theorem readParam_unless (h : mem.Agrees bad m.mem) :
    Unless (MachineError.OfMemory bad) ((m.withMemory mem).readParam f k) (m.readParam f k) := by
  refine .bind (operand_unless h) fun o => ?_
  cases o with
  | value v => exact .refl _ _
  | address a => exact (h.read _).mapError _ fun _ he => he

theorem target_unless (h : mem.Agrees bad m.mem) :
    Unless (MachineError.OfMemory bad) ((m.withMemory mem).target f k) (m.target f k) := by
  refine .bind (operand_unless h) fun o => ?_
  cases o with
  | value v => exact .refl _ _
  | address a =>
    refine .bind ((h.checkWrite _).mapError _ fun _ he => he) fun _ => ?_
    exact .refl _ _

theorem combine_unless (h : mem.Agrees bad m.mem) (op : Cell → Cell → Cell) :
    Unless (MachineError.OfMemory bad) ((m.withMemory mem).combine f op) (m.combine f op) := by
  refine .bind (readParam_unless h) fun a => ?_
  refine .bind (readParam_unless h) fun b => ?_
  refine .bind (target_unless h) fun t => ?_
  exact .refl _ _

theorem branch_unless (h : mem.Agrees bad m.mem) (test : Cell → Bool) :
    Unless (MachineError.OfMemory bad) ((m.withMemory mem).branch f test) (m.branch f test) := by
  refine .bind (readParam_unless h) fun a => ?_
  refine .bind (readParam_unless h) fun goal => ?_
  exact .refl _ _

theorem effect_unless (h : mem.Agrees bad m.mem) :
    Unless (MachineError.OfMemory bad) ((m.withMemory mem).effect f) (m.effect f) := by
  unfold effect
  cases f.instruction.opcode with
  | add | multiply | lessThan | equals => exact (combine_unless h _).map _
  | jumpIfTrue | jumpIfFalse => exact (branch_unless h _).map _
  | output | adjustRelativeBase =>
    refine .bind (readParam_unless h) fun a => ?_
    exact .refl _ _
  | input =>
    have hinput : (m.withMemory mem).input = m.input := rfl
    rw [hinput]
    cases m.input with
    | nil => exact .refl _ _
    | cons v rest =>
      refine .bind (target_unless h) fun a => ?_
      exact .refl _ _
  | halt => exact .refl _ _

theorem traceParam_withMemory (h : mem.Agrees bad m.mem) (hk : k < f.instruction.opcode.arity)
    (hacc : m.Accessible f k) :
    (m.withMemory mem).traceParam f k (f.instruction.modeAt k) =
      m.traceParam f k (f.instruction.modeAt k) := by
  have hraw : m.mem.read (f.pc + 1 + k) = .ok (m.raw f k) := Memory.read_eq_ok_iff.mpr ⟨hacc.cell, rfl⟩
  have hraw' := (h.read _).eq_ok hraw
  have hmem : (m.withMemory mem).mem = mem := rfl
  have hregs : (m.withMemory mem).regs = m.regs := rfl
  simp only [traceParam, hmem, hregs, hraw, hraw', TraceParam.mk.injEq, true_and]
  cases ha : f.instruction.opcode.access k with
  | write => rfl
  | read =>
    obtain ⟨o, ho, hv⟩ := bind_eq_ok.mp ((readParam_eq_ok_iff hk ha).mpr ⟨hacc, rfl⟩)
    have hres := ((operand_eq_ok_iff hk).mp ho).2
    simp only [Except.toOption, Option.getD_some, hres]
    cases o with
    | value v => rfl
    | address a =>
      have hread := mapError_eq_ok.mp hv
      simp only [hread, (h.read _).eq_ok hread]

theorem traceEntry_withMemory (h : mem.Agrees bad m.mem) (hf : m.fetch = .ok f) {e : Effect}
    (he : m.effect f = .ok (some e)) : (m.withMemory mem).traceEntry f = m.traceEntry f := by
  have hd := (fetch_eq_ok_iff.mp hf).2.2.2
  have hlen := (decode_eq_ok_iff.mp hd).2.1
  have hacc := ((effect_eq_some_iff hd).mp he).2.1
  have hparams : f.instruction.modes.mapIdx ((m.withMemory mem).traceParam f) =
      f.instruction.modes.mapIdx (m.traceParam f) := by
    apply List.ext_getElem
    · simp
    · intro k hk _
      rw [List.length_mapIdx] at hk
      have hmode : f.instruction.modes[k] = f.instruction.modeAt k := by
        simp [Instruction.modeAt, hk]
      simp only [List.getElem_mapIdx, hmode]
      exact traceParam_withMemory h (hlen ▸ hk) (hacc k (hlen ▸ hk))
  simp only [traceEntry, hparams]
  rfl

theorem commit_withMemory {e : Effect} (h : (m.withMemory mem).traceEntry f = m.traceEntry f) :
    (m.withMemory mem).commit f e = (m.commit f e).withMemory (e.onMemory mem) := by
  have hrecorded : (m.withMemory mem).recorded f = m.recorded f := by
    simp only [recorded, h]
    rfl
  rw [commit_eq, commit_eq, hrecorded]
  cases e <;> rfl

theorem commit_program (m : Machine) (f : Fetched) (e : Effect) : (m.commit f e).program = m.program := by
  rw [commit_eq]
  cases e <;> rfl

theorem commit_mem (m : Machine) (f : Fetched) (e : Effect) : (m.commit f e).mem = e.onMemory m.mem := by
  rw [commit_eq]
  cases e <;> rfl

end Accesses

section Writes
variable {m : Machine} {f : Fetched} {k : Nat}

theorem target_checkWrite {a : Nat} (h : m.target f k = .ok a) : m.mem.checkWrite a = .ok () := by
  unfold target at h
  obtain ⟨o, _, h⟩ := Fallible.bind_eq_ok.mp h
  cases o with
  | value v => cases h
  | address u =>
    obtain ⟨_, hc, h⟩ := Fallible.bind_eq_ok.mp h
    cases h
    exact Fallible.mapError_eq_ok.mp hc

theorem effect_checkWrite {e : Effect} (h : m.effect f = .ok (some e)) {a : Nat} {v : Cell}
    (hw : e.written? = some (a, v)) : m.mem.checkWrite a = .ok () := by
  unfold effect at h
  cases hop : f.instruction.opcode with
  | add | multiply | lessThan | equals =>
    simp only [hop, Fallible.map_eq_ok, Option.some.injEq, exists_eq_right, combine,
      Fallible.bind_eq_ok] at h
    obtain ⟨_, _, _, _, t, ht, he⟩ := h
    cases he
    cases hw
    exact target_checkWrite ht
  | input =>
    cases hin : m.input with
    | nil => simp [hop, hin] at h
    | cons u rest =>
      simp only [hop, hin, Fallible.bind_eq_ok] at h
      obtain ⟨t, ht, he⟩ := h
      cases he
      cases hw
      exact target_checkWrite ht
  | jumpIfTrue | jumpIfFalse =>
    simp only [hop, Fallible.map_eq_ok, Option.some.injEq, exists_eq_right, branch,
      Fallible.bind_eq_ok] at h
    obtain ⟨_, _, _, _, he⟩ := h
    cases he
    split at hw <;> simp [Effect.written?] at hw
  | output | adjustRelativeBase =>
    simp only [hop, Fallible.bind_eq_ok] at h
    obtain ⟨_, _, he⟩ := h
    cases he
    simp [Effect.written?] at hw
  | halt =>
    simp only [hop] at h
    cases h
    simp [Effect.written?] at hw

end Writes

/-- The two machines differ in their memories only, and these are so related. -/
structure Twins (R : Array Cell → Memory → Memory → Prop) (b a : Machine) : Prop where
  memories : R a.program b.mem a.mem
  rest : b = a.withMemory b.mem

section Twins
variable {R : Array Cell → Memory → Memory → Prop} {bad : MemoryError → Prop}
  {alike : MachineError → MachineError → Prop} {b a : Machine}

theorem onMemory_kept (h : Memory.Kept R bad) {mem : Memory} (hR : R a.program mem a.mem) {f : Fetched}
    {e : Effect} (he : a.effect f = .ok (some e)) :
    R a.program (e.onMemory mem) (e.onMemory a.mem) := by
  unfold Effect.onMemory
  cases hw : e.written? with
  | none => exact hR
  | some cell =>
    rcases cell with ⟨address, value⟩
    exact h.store address value hR (effect_checkWrite he hw)

/-- Twins take the same step, if they find the same at the program counter or both find nothing. -/
theorem Twins.step (h : Memory.Kept R bad) (hab : Twins R b a) (ht : a.state.isTerminal = false)
    (hfetch : b.fetch = a.fetch ∨ ∃ e' e, b.fetch = .error e' ∧ a.fetch = .error e ∧ alike e' e) :
    Together (Twins R) alike (MachineError.OfMemory bad) .error b.step a.step := by
  obtain ⟨mem, hR, rfl⟩ : ∃ mem, R a.program mem a.mem ∧ b = a.withMemory mem :=
    ⟨b.mem, hab.memories, hab.rest⟩
  have ht' : (a.withMemory mem).state.isTerminal = false := ht
  have hagrees := h.agrees hR
  obtain ⟨e, hf, hs⟩ | ⟨f, hf, ⟨e, he, hs⟩ | ⟨he, hs⟩ | ⟨e, he, hs⟩⟩ := step_cases ht
  · rw [hs]
    obtain hsame | ⟨e', e₀, hb, ha, halike⟩ := hfetch
    · rw [step_of_fetch_error ht' (hsame.trans hf)]
      exact .inr ⟨⟨hR, rfl⟩, .inl rfl⟩
    · rw [hf] at ha
      cases ha
      rw [step_of_fetch_error ht' hb]
      exact .inr ⟨⟨hR, rfl⟩, .inr ⟨e', e, rfl, rfl, halike, rfl, rfl⟩⟩
  -- In the other cases there is an instruction, and both have fetched it.
  all_goals
    have hf' : (a.withMemory mem).fetch = .ok f := by
      obtain hsame | ⟨_, _, _, ha, _⟩ := hfetch
      · rw [hsame, hf]
      · simp [hf] at ha
    rw [hs]
  · obtain hsame | ⟨e', hbad, hlost⟩ := effect_unless (f := f) hagrees
    · rw [step_of_effect_error ht' hf' (hsame.trans he)]
      exact .inr ⟨⟨hR, rfl⟩, .inl rfl⟩
    · rw [he] at hbad
      cases hbad
      exact .inl ⟨e, rfl, hlost⟩
  · rw [step_of_starved ht' hf' ((effect_unless hagrees).eq_ok he)]
    exact .inr ⟨⟨hR, rfl⟩, .inl rfl⟩
  · rw [step_of_effect ht' hf' ((effect_unless hagrees).eq_ok he),
      commit_withMemory (traceEntry_withMemory hagrees hf he)]
    refine .inr ⟨⟨?_, rfl⟩, .inl rfl⟩
    have hkept := onMemory_kept h hR he
    rw [← commit_mem a f e, ← commit_program a f e] at hkept
    exact hkept

theorem lockstep_twins (h : Memory.Kept R bad)
    (hfetch : ∀ {b a}, Twins R b a →
      b.fetch = a.fetch ∨ ∃ e' e, b.fetch = .error e' ∧ a.fetch = .error e ∧ alike e' e) :
    Lockstep (Twins R) alike (MachineError.OfMemory bad) where
  state hab := (congrArg Machine.state hab.rest).trans rfl
  output hab := (congrArg Machine.output hab.rest).trans rfl
  trace hab := (congrArg Machine.trace hab.rest).trans rfl
  step hab ht := Twins.step h hab ht (hfetch hab)
  pushInput values hab := ⟨hab.memories, congrArg (Machine.pushInput · values) hab.rest⟩
  clearOutput hab := ⟨hab.memories, congrArg Machine.clearOutput hab.rest⟩
  clearTrace hab := ⟨hab.memories, congrArg Machine.clearTrace hab.rest⟩
  setTrace on hab := ⟨hab.memories, congrArg (Machine.setTrace · on) hab.rest⟩
  assign regs hab := ⟨hab.memories, congrArg (fun m => { m with regs := regs }) hab.rest⟩
  reset hab := ⟨hab.memories, congrArg Machine.reset hab.rest⟩
  restart {b a} hab := by
    have hprogram : b.program = a.program := (congrArg Machine.program hab.rest).trans rfl
    refine ⟨?_, ?_⟩
    · simpa only [restart, hprogram] using h.restore hab.memories
    · rw [hab.rest]
      rfl

end Twins

end Machine

end Intcode
