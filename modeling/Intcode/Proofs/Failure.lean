import Intcode.Proofs.InPlace
import Intcode.Proofs.Operands
import Intcode.Proofs.Run
set_option autoImplicit false

/-!
A failing instruction has no partial effect. The machine that meets an error is the one before the
instruction, marked as failed, and the error names the place where the program counter still stands.
-/
namespace Intcode

/-- The error was met at `pc`. Memory errors name an address and no place. -/
def MachineError.MetAt (pc : Cell) : MachineError → Prop
  | .decode place _ => (place : Int) = pc.toInt
  | .programCounterOverrun place _ => place = pc
  | .memory _ => True
  | _ => False

namespace Machine

variable {m after : Machine} {f : Fetched} {k : Nat} {e : MachineError}

theorem fetch_error (h : m.fetch = .error e) : e.MetAt m.regs.pc := by
  unfold fetch at h
  split at h
  · cases h
    rfl
  · rename_i hneg
    have hpc := Cell.nonneg_of_not_lt hneg
    simp only [Cell.toNat_toUInt64 hpc] at h
    split at h
    · cases h
      rfl
    · split at h
      · cases h
        exact Int.toNat_of_nonneg hpc
      · cases h

variable {pc : Cell} (hpc : (f.pc : Int) = pc.toInt)
include hpc

theorem operand_error (h : m.operand f k = .error e) : e.MetAt pc := by
  unfold operand at h
  simp only [Fallible.bind_eq_error, Fallible.mapError_eq_error] at h
  obtain ⟨cause, _, rfl⟩ | ⟨_, _, ⟨_, _, rfl⟩ | ⟨_, _, _, _, rfl⟩⟩ := h
  · exact hpc
  · trivial
  · trivial

theorem readParam_error (h : m.readParam f k = .error e) : e.MetAt pc := by
  unfold readParam at h
  obtain h | ⟨o, _, h⟩ := Fallible.bind_eq_error.mp h
  · exact operand_error hpc h
  · cases o with
    | value v => cases h
    | address a =>
      obtain ⟨_, _, rfl⟩ := Fallible.mapError_eq_error.mp h
      trivial

theorem target_error (h : m.target f k = .error e) : e.MetAt pc := by
  unfold target at h
  obtain h | ⟨o, _, h⟩ := Fallible.bind_eq_error.mp h
  · exact operand_error hpc h
  · cases o with
    | value v =>
      cases h
      exact hpc
    | address a =>
      obtain h | ⟨_, _, h⟩ := Fallible.bind_eq_error.mp h
      · obtain ⟨_, _, rfl⟩ := Fallible.mapError_eq_error.mp h
        trivial
      · cases h

theorem combine_error {op : Cell → Cell → Cell} (h : m.combine f op = .error e) : e.MetAt pc := by
  unfold combine at h
  obtain h | ⟨_, _, h⟩ := Fallible.bind_eq_error.mp h
  · exact readParam_error hpc h
  obtain h | ⟨_, _, h⟩ := Fallible.bind_eq_error.mp h
  · exact readParam_error hpc h
  obtain h | ⟨_, _, h⟩ := Fallible.bind_eq_error.mp h
  · exact target_error hpc h
  · cases h

theorem branch_error {test : Cell → Bool} (h : m.branch f test = .error e) : e.MetAt pc := by
  unfold branch at h
  obtain h | ⟨_, _, h⟩ := Fallible.bind_eq_error.mp h
  · exact readParam_error hpc h
  obtain h | ⟨_, _, h⟩ := Fallible.bind_eq_error.mp h
  · exact readParam_error hpc h
  · cases h

theorem effect_error (h : m.effect f = .error e) : e.MetAt pc := by
  unfold effect at h
  cases hop : f.instruction.opcode with
  | add | multiply | lessThan | equals =>
    rw [hop] at h
    exact combine_error hpc (Fallible.map_eq_error.mp h)
  | jumpIfTrue | jumpIfFalse =>
    rw [hop] at h
    exact branch_error hpc (Fallible.map_eq_error.mp h)
  | output | adjustRelativeBase =>
    rw [hop] at h
    obtain h | ⟨_, _, h⟩ := Fallible.bind_eq_error.mp h
    · exact readParam_error hpc h
    · cases h
  | input =>
    cases hin : m.input with
    | nil => simp [hop, hin] at h
    | cons v rest =>
      simp only [hop, hin] at h
      obtain h | ⟨_, _, h⟩ := Fallible.bind_eq_error.mp h
      · exact target_error hpc h
      · cases h
  | halt => simp [hop] at h

omit hpc

theorem step_error (ht : m.state.isTerminal = false) (h : m.step = (.error e, after)) :
    after = { m with state := .errored } ∧ e.MetAt m.regs.pc := by
  obtain ⟨e', hf, hs⟩ | ⟨f, hf, ⟨e', he, hs⟩ | ⟨he, hs⟩ | ⟨e', he, hs⟩⟩ := step_cases ht
  · rw [h] at hs
    cases hs
    exact ⟨rfl, fetch_error hf⟩
  · rw [h] at hs
    cases hs
    exact ⟨rfl, effect_error (fetch_eq_ok_iff.mp hf).1 he⟩
  · rw [h] at hs
    cases hs
  · rw [h] at hs
    cases hs

theorem answer?_eq_error {out : Except MachineError Step} (h : Step.answer? out = some (.error e)) :
    out = .error e := by
  cases out with
  | error e' =>
    cases h
    rfl
  | ok s => cases s <;> simp [Step.answer?] at h

theorem ends_error {n : Nat} {last : Machine} {out : Except MachineError Step}
    (ht : m.state.isTerminal = false) (hx : Executes n m last) (hs : last.step = (out, after))
    (ha : Step.answer? out = some (.error e)) :
    last.step.1 = .error e ∧ after = { last with state := .errored } := by
  obtain rfl := answer?_eq_error ha
  exact ⟨by rw [hs], (step_error (hx.not_terminal ht) hs).1⟩

theorem runLimited_error {input : List Cell} {budget : Count} (ht : m.state.isTerminal = false)
    (h : m.runLimited input budget = (.error e, after)) :
    ∃ n last, n < budget.toNat ∧ Executes n (m.pushInput input) last ∧ last.step.1 = .error e ∧
      after = { last with state := .errored } := by
  have hpush : (m.pushInput input).state.isTerminal = false := ht
  rw [runLimited_eq ht] at h
  obtain ⟨hans, rfl⟩ := Prod.mk.inj h
  obtain ⟨hp, _⟩ | ⟨n, last, out, result, hn, hx, hs, ha, hres⟩ :=
    advance_cases budget.toNat (m.pushInput input)
  · simp [hp, Stop.result?] at hans
  · rw [hres, Option.getD_some] at hans
    subst hans
    exact ⟨n, last, hn, hx, ends_error hpush hx hs ha⟩

theorem runs_error {input : List Cell} (ht : m.state.isTerminal = false)
    (h : m.Runs input (.error e) after) :
    ∃ n last, Executes n (m.pushInput input) last ∧ last.step.1 = .error e ∧
      after = { last with state := .errored } := by
  have hpush : (m.pushInput input).state.isTerminal = false := ht
  obtain ⟨n, last, out, hx, hs, ha⟩ := finishes_iff.mp ((runs_iff ht).mp h)
  exact ⟨n, last, hx, ends_error hpush hx hs ha⟩

/-- A failed step leaves all but the state flag as it was, though the machine is changed in place. A failed run
is the instructions before the failure and nothing more. A machine that has ended refuses to go on and stays
as it is. -/
theorem failure_keeps_machine (m : Machine) :
    InPlace.step m = m.step ∧
    (m.state.isTerminal = false →
      (∀ e after, m.step = (.error e, after) →
        after = { m with state := .errored } ∧
        (∀ pc cause, e = .decode pc cause → (pc : Int) = after.regs.pc.toInt) ∧
        (∀ pc size, e = .programCounterOverrun pc size → pc = after.regs.pc)) ∧
      (∀ input budget e after, m.runLimited input budget = (.error e, after) →
        ∃ n last, n < budget.toNat ∧ Executes n (m.pushInput input) last ∧ last.step.1 = .error e ∧
          after = { last with state := .errored }) ∧
      (∀ input e after, m.Runs input (.error e) after →
        ∃ n last, Executes n (m.pushInput input) last ∧ last.step.1 = .error e ∧
          after = { last with state := .errored })) ∧
    (m.state.isTerminal = true →
      m.step = (.error (.notRunning m.state), m) ∧
      (∀ input budget, m.runLimited input budget = (.error (.notRunning m.state), m)) ∧
      (∀ input result after,
        m.Runs input result after ↔ result = .error (.notRunning m.state) ∧ after = m)) := by
  refine ⟨InPlace.step_eq m, ?_, ?_⟩
  · intro ht
    refine ⟨?_, fun _ _ _ _ => runLimited_error ht, fun _ _ _ => runs_error ht⟩
    intro e after hs
    obtain ⟨rfl, hmet⟩ := step_error ht hs
    refine ⟨rfl, ?_, ?_⟩
    · intro pc cause he
      subst he
      exact hmet
    · intro pc size he
      subst he
      exact hmet
  · intro ht
    refine ⟨step_of_terminal ht, ?_, fun _ _ _ => runs_of_terminal ht⟩
    intro input budget
    simp [runLimited, ht]

/-- An output, then a write outside the memory: the output stays, and the input that was given too. -/
theorem failure_keeps_machine_outside :
    let m : Machine := ofMemory #[] [] ⟨#[104, 5, 1101, 1, 1, 9], .strict, 6⟩
    let broken := (m.runLimited [8] 4).2
    m.runLimited [8] 4 = (.error (.memory (.outOfRange 9 6)), broken) ∧
    (∃ n last, n < 4 ∧ Executes n (m.pushInput [8]) last ∧
      last.step.1 = .error (.memory (.outOfRange 9 6)) ∧ broken = { last with state := .errored }) ∧
    broken = { m with state := .errored, steps := 1, regs := ⟨2, 0⟩, input := [8], output := #[5] } ∧
    broken.step = (.error (.notRunning .errored), broken) := by
  intro m broken
  have hstop : (advance 4 (m.pushInput [8])).1 = .failed (.memory (.outOfRange 9 6)) := by decide +kernel
  have hrun : m.runLimited [8] 4 = (.error (.memory (.outOfRange 9 6)), broken) := by
    apply Prod.ext
    · have hbudget : (4 : Count).toNat = 4 := rfl
      rw [runLimited_eq rfl, hbudget, hstop]
      rfl
    · rfl
  have hbroken : broken =
      { m with state := .errored, steps := 1, regs := ⟨2, 0⟩, input := [8], output := #[5] } := by
    decide +kernel
  have hstate : broken.state = .errored := by rw [hbroken]
  refine ⟨hrun, ?_, hbroken, ?_⟩
  · exact ((failure_keeps_machine m).2.1 rfl).2.1 [8] 4 _ _ hrun
  · have h := ((failure_keeps_machine broken).2.2 (by rw [hstate]; rfl)).1
    rwa [hstate] at h

end Machine

end Intcode
