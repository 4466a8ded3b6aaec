import Intcode.Debugger.Basic
import Intcode.Proofs.Step
set_option autoImplicit false

/-!
What the debugger does to its machine. A step attempts one step of the machine, if that can run, and moves
what it has put out to the log; a run and a beat attempt one or none. Nothing else about the debugger but
the status line and the running flag has changed afterwards.
-/
namespace Intcode.Debugger

open Machine

variable {d : Debugger}

theorem step_of_terminal (h : d.machine.state.isTerminal = true) :
    ∃ status, d.step = { d with status := status, running := false } := by
  simp only [step, h, if_true]
  exact ⟨_, rfl⟩

theorem step_of_live (h : d.machine.state.isTerminal = false) :
    ∃ status, d.step =
      { d with
        machine := d.machine.step.2.clearOutput
        status := status
        running := d.running && goesOn d.machine.step.1
        log := d.log ++ d.machine.step.2.output } := by
  simp only [step, h, Bool.false_eq_true, if_false]
  exact ⟨_, rfl⟩

theorem run_cases (d : Debugger) :
    (d.pc ∈ d.breakpoints ∧ d.run = { d with running := true, status := "Running..." }.step) ∨
    (d.pc ∉ d.breakpoints ∧ d.run = { d with running := true, status := "Running..." }) := by
  by_cases h : d.pc ∈ d.breakpoints
  · exact .inl ⟨h, if_pos h⟩
  · exact .inr ⟨h, if_neg h⟩

/-- A beat does nothing unless the debugger is running, stops where there is nothing to run or a breakpoint,
and is a step everywhere else. -/
theorem tick_cases (d : Debugger) :
    (d.running = false ∧ d.tick = d) ∨
    (d.running = true ∧ (d.machine.state.isTerminal = true ∨ d.pc ∈ d.breakpoints) ∧
      ∃ status, d.tick = { d with running := false, status := status }) ∨
    (d.running = true ∧ d.machine.state.isTerminal = false ∧ d.pc ∉ d.breakpoints ∧ d.tick = d.step) := by
  unfold tick
  cases hr : d.running with
  | false => exact .inl ⟨rfl, rfl⟩
  | true =>
    cases ht : d.machine.state.isTerminal with
    | true => exact .inr (.inl ⟨rfl, .inl rfl, _, rfl⟩)
    | false =>
      by_cases hb : d.pc ∈ d.breakpoints
      · exact .inr (.inl ⟨rfl, .inr hb, _, if_pos hb⟩)
      · exact .inr (.inr ⟨rfl, rfl, hb, if_neg hb⟩)

theorem goesOn_eq_true_iff {out : Except MachineError Step} :
    goesOn out = true ↔ ∃ i, out = .ok (.executed i) := by
  cases out with
  | error e => simp [goesOn]
  | ok s => cases s <;> simp [goesOn]

theorem state_of_goesOn {m : Machine} (h : goesOn m.step.1 = true) : m.step.2.state = .running := by
  obtain ⟨i, hi⟩ := goesOn_eq_true_iff.mp h
  exact step_state (Prod.ext hi rfl : m.step = (.ok (.executed i), m.step.2))

end Intcode.Debugger
