import Intcode.Debugger.Keys
import Intcode.Proofs.Attempts
import Intcode.Proofs.Omission
set_option autoImplicit false

/-!
The debugger as an observer. Of all that is done with it, only attempted steps, submitted input and resets
come to the machine, as calls that could have been made without the debugger, and the log is the output that
the machine would have kept. Breakpoints, pauses and typing have no influence but on which calls these are.
-/
namespace Intcode

namespace Machine

def Leaves (m : Machine) (calls : List Call) (after : Machine) : Prop :=
  ∃ events, m.Session calls events ∧ m.ending events = after

section Leaves
variable {m mid after after' : Machine} {call : Call} {calls later : List Call} {reply : Reply}

theorem Leaves.refl (m : Machine) : m.Leaves [] m := ⟨[], .nil m, rfl⟩

theorem Leaves.next (ha : m.Answers call reply mid) (h : mid.Leaves calls after) :
    m.Leaves (call :: calls) after := by
  obtain ⟨events, hs, hlast⟩ := h
  exact ⟨_, .cons ha hs, hlast⟩

theorem Leaves.of_answers (ha : m.Answers call reply after) : m.Leaves [call] after := .next ha (.refl after)

theorem Leaves.append (h : m.Leaves calls mid) (h' : mid.Leaves later after) :
    m.Leaves (calls ++ later) after := by
  obtain ⟨events, hs, hlast⟩ := h
  induction hs with
  | nil m =>
    obtain rfl : m = mid := hlast
    exact h'
  | cons ha _ ih => exact .next ha (ih hlast)

theorem Leaves.unique (h : m.Leaves calls after) (h' : m.Leaves calls after') : after = after' := by
  obtain ⟨events, hs, rfl⟩ := h
  obtain ⟨events', hs', rfl⟩ := h'
  rw [hs.unique hs']

end Leaves

end Machine

namespace Debugger

inductive Operation
  | step
  | run
  | tick
  | toggleBreakpoint
  | addBreakpoint (address : Cell)
  | pause
  | type (text : List Char)
  | erase
  | clearBuffer
  | cancel
  | submit
  | reset

def perform (d : Debugger) : Operation → Debugger
  | .step => d.step
  | .run => d.run
  | .tick => d.tick
  | .toggleBreakpoint => d.toggleBreakpoint
  | .addBreakpoint address => d.addBreakpoint address
  | .pause => d.pause
  | .type text => d.type text
  | .erase => d.editKey .backspace
  | .clearBuffer => d.clearBuffer
  | .cancel => d.cancel
  | .submit => d.submit
  | .reset => d.reset

def performed (d : Debugger) (ops : List Operation) : Debugger := ops.foldl perform d

def attempt (d : Debugger) : List Call := if d.machine.state.isTerminal then [] else [.step]

/-- The calls that an operation makes on the machine, the draining of output left out. -/
def calls (d : Debugger) : Operation → List Call
  | .step => d.attempt
  | .run => if d.pc ∈ d.breakpoints then d.attempt else []
  | .tick => if d.running = true ∧ d.pc ∉ d.breakpoints then d.attempt else []
  | .submit => match Program.parse (String.ofList d.buffer) with
    | .ok values => [.pushInput values.toList]
    | .error _ => []
  | .reset => [.restart]
  | _ => []

def callsOf : Debugger → List Operation → List Call
  | _, [] => []
  | d, op :: ops => d.calls op ++ (d.perform op).callsOf ops

theorem callsOf_append (d : Debugger) (ops later : List Operation) :
    d.callsOf (ops ++ later) = d.callsOf ops ++ (d.performed ops).callsOf later := by
  induction ops generalizing d with
  | nil => rfl
  | cons op ops ih =>
    rw [List.cons_append, callsOf, callsOf, ih, List.append_assoc]
    rfl

/-- The debugger shows the machine: its own is the same but for the output, which is in the log. -/
structure Shows (d : Debugger) (m : Machine) : Prop where
  machine : d.machine = m.clearOutput
  log : d.log = m.output

variable {d : Debugger} {m : Machine}

theorem shows_new (program : Array Cell) : (new program).Shows (Machine.new program []) := ⟨rfl, rfl⟩

theorem Shows.machine_step (h : d.Shows m) : m.step = (d.machine.step.1, d.machine.step.2.undrain d.log) := by
  have hundrained : d.machine.undrain d.log = m := by
    rw [h.machine, h.log]
    simp [Machine.undrain, Machine.clearOutput]
  rw [← Machine.step_undrain, hundrained]

theorem Shows.step_of_live (h : d.Shows m) (ht : d.machine.state.isTerminal = false) :
    d.step.Shows m.step.2 := by
  obtain ⟨status, hstep⟩ := Debugger.step_of_live ht
  rw [hstep, h.machine_step]
  exact ⟨rfl, rfl⟩

theorem Shows.step (h : d.Shows m) : ∃ after, m.Leaves d.attempt after ∧ d.step.Shows after := by
  unfold attempt
  cases ht : d.machine.state.isTerminal with
  | true =>
    obtain ⟨status, hstep⟩ := step_of_terminal ht
    rw [hstep]
    exact ⟨m, .refl m, h.machine, h.log⟩
  | false =>
    have hanswers : m.Answers .step (.step m.step.1) m.step.2 := ⟨0, rfl⟩
    exact ⟨m.step.2, .of_answers hanswers, h.step_of_live ht⟩

theorem Shows.perform (h : d.Shows m) (op : Operation) :
    ∃ after, m.Leaves (d.calls op) after ∧ (d.perform op).Shows after := by
  cases op with
  | step => exact h.step
  | run =>
    have hstarted : { d with running := true, status := "Running..." }.Shows m := ⟨h.machine, h.log⟩
    simp only [calls, Debugger.perform]
    obtain ⟨hb, hrun⟩ | ⟨hb, hrun⟩ := run_cases d
    · rw [if_pos hb, hrun]
      exact hstarted.step
    · rw [if_neg hb, hrun]
      exact ⟨m, .refl m, h.machine, h.log⟩
  | tick =>
    simp only [calls, Debugger.perform]
    obtain ⟨hr, htick⟩ | ⟨hr, hstop, status, htick⟩ | ⟨hr, _, hb, htick⟩ := tick_cases d
    · rw [if_neg (by simp [hr]), htick]
      exact ⟨m, .refl m, h⟩
    · have hnone : (if d.running = true ∧ d.pc ∉ d.breakpoints then d.attempt else []) = [] := by
        obtain ht | hb := hstop
        · simp [attempt, ht]
        · simp [hb]
      rw [hnone, htick]
      exact ⟨m, .refl m, h.machine, h.log⟩
    · rw [if_pos ⟨hr, hb⟩, htick]
      exact h.step
  | submit =>
    simp only [calls, Debugger.perform, submit]
    cases Program.parse (String.ofList d.buffer) with
    | error e => exact ⟨m, .refl m, h.machine, h.log⟩
    | ok values =>
      have hanswers : m.Answers (.pushInput values.toList) .done (m.pushInput values.toList) := ⟨0, rfl⟩
      have hmachine : d.machine.pushInput values.toList = m.clearOutput.pushInput values.toList := by
        rw [h.machine]
      exact ⟨_, .of_answers hanswers, hmachine, h.log⟩
  | reset =>
    have hanswers : m.Answers .restart .done m.restart := ⟨0, rfl⟩
    have hmachine : d.machine.restart = m.clearOutput.restart := by rw [h.machine]
    exact ⟨m.restart, .of_answers hanswers, hmachine, rfl⟩
  | toggleBreakpoint =>
    simp only [calls, Debugger.perform, toggleBreakpoint]
    split <;> exact ⟨m, .refl m, h.machine, h.log⟩
  | addBreakpoint _ | pause | type _ | erase | clearBuffer | cancel => exact ⟨m, .refl m, h.machine, h.log⟩

theorem Shows.performed (h : d.Shows m) (ops : List Operation) :
    ∃ after, m.Leaves (d.callsOf ops) after ∧ (d.performed ops).Shows after := by
  induction ops generalizing d m with
  | nil => exact ⟨m, .refl m, h⟩
  | cons op ops ih =>
    obtain ⟨mid, hmid, hshows⟩ := h.perform op
    obtain ⟨after, hafter, hlast⟩ := ih hshows
    exact ⟨after, hmid.append hafter, hlast⟩

/-- A machine that is called without the debugger, for each step that the debugger attempts, each submission
that is a list of values and each reset, is in the end the debugger's machine, but for the output: it has
kept all that the debugger has moved to its log. So operations that come to the same calls lead to the same
machine and the same log. A submission that is no list of values changes nothing but the status line. -/
theorem debugger_observes (program : Array Cell) :
    (∀ ops, ∃ plain, (Machine.new program []).Leaves ((new program).callsOf ops) plain ∧
      ((new program).performed ops).machine = { plain with output := #[] } ∧
      ((new program).performed ops).log = plain.output) ∧
    (∀ ops ops', (new program).callsOf ops = (new program).callsOf ops' →
      ((new program).performed ops).machine = ((new program).performed ops').machine ∧
      ((new program).performed ops).log = ((new program).performed ops').log) ∧
    ∀ (d : Debugger) e, Program.parse (String.ofList d.buffer) = .error e →
      ∃ status, d.submit = { d with status := status } := by
  refine ⟨?_, ?_, ?_⟩
  · intro ops
    obtain ⟨plain, hplain, hshows⟩ := (shows_new program).performed ops
    exact ⟨plain, hplain, hshows.machine, hshows.log⟩
  · intro ops ops' hcalls
    obtain ⟨plain, hplain, hshows⟩ := (shows_new program).performed ops
    obtain ⟨plain', hplain', hshows'⟩ := (shows_new program).performed ops'
    rw [← hcalls] at hplain'
    obtain rfl := hplain.unique hplain'
    exact ⟨hshows.machine.trans hshows'.machine.symm, hshows.log.trans hshows'.log.symm⟩
  · intro d e he
    simp only [submit, he]
    exact ⟨_, rfl⟩

/-- A run off a breakpoint, after a pause, comes to what a step comes to. -/
theorem debugger_observes_run :
    let d := new #[3, 5, 4, 5, 99, 0]
    let ops : List Operation :=
      [.type ['7', 'x'], .submit, .erase, .submit, .addBreakpoint 0, .pause, .tick, .run]
    let ops' : List Operation := [.type ['7'], .submit, .step]
    let typed := d.type ['7', 'x']
    d.callsOf ops = [.pushInput [7], .step] ∧ d.callsOf ops' = [.pushInput [7], .step] ∧
      (d.performed ops).machine = (d.performed ops').machine ∧
      (d.performed ops).log = (d.performed ops').log ∧
      Program.parse (String.ofList typed.buffer) = .error ⟨0, "7x", .invalidDigit⟩ ∧
      ∃ status, typed.submit = { typed with status := status } := by
  intro d ops ops' typed
  have hcalls : d.callsOf ops = [.pushInput [7], .step] := by decide +kernel
  have hcalls' : d.callsOf ops' = [.pushInput [7], .step] := by decide +kernel
  have hbad : Program.parse (String.ofList typed.buffer) = .error ⟨0, "7x", .invalidDigit⟩ := by
    decide +kernel
  obtain ⟨_, hsame, hkept⟩ := debugger_observes #[3, 5, 4, 5, 99, 0]
  obtain ⟨hmachine, hlog⟩ := hsame ops ops' (hcalls.trans hcalls'.symm)
  exact ⟨hcalls, hcalls', hmachine, hlog, hbad, hkept typed _ hbad⟩

end Debugger

end Intcode
