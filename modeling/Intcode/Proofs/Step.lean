import Intcode.Machine.Step
import Intcode.Proofs.Fallible
set_option autoImplicit false

/-!
What one step can do, said once. A step of a machine that is not terminal fails, starves or commits one
effect (`Machine.step_cases`), and which of these it does hangs on the registers, the memory and the head
of the input queue alone. So input that is queued but not yet read, output that was drained, and the
reason why a machine last paused have no influence on it.
-/
namespace Intcode

def Step.state : Step → State
  | .executed _ => .running
  | .blocked => .blocked
  | .halted => .halted

namespace Machine

theorem step_of_terminal {m : Machine} (h : m.state.isTerminal = true) :
    m.step = (.error (.notRunning m.state), m) := by
  simp [step, h]

section Rules
variable {m : Machine} (h : m.state.isTerminal = false) {f : Fetched}
include h

theorem step_of_fetch_error {e : MachineError} (hf : m.fetch = .error e) :
    m.step = (.error e, { m with state := .errored }) := by
  simp [step, h, hf]

theorem step_of_effect_error {e : MachineError} (hf : m.fetch = .ok f) (he : m.effect f = .error e) :
    m.step = (.error e, { m with state := .errored }) := by
  simp [step, h, hf, he]

theorem step_of_starved (hf : m.fetch = .ok f) (he : m.effect f = .ok none) :
    m.step = (.ok .blocked, { m with state := .blocked }) := by
  simp [step, h, hf, he]

theorem step_of_effect {e : Effect} (hf : m.fetch = .ok f) (he : m.effect f = .ok (some e)) :
    m.step = (.ok (if e = .halt then .halted else .executed f.instruction), m.commit f e) := by
  simp [step, h, hf, he]

/-- Every step of a machine that can run is one of these four. -/
theorem step_cases :
    (∃ e, m.fetch = .error e ∧ m.step = (.error e, { m with state := .errored })) ∨
    ∃ f, m.fetch = .ok f ∧
      ((∃ e, m.effect f = .error e ∧ m.step = (.error e, { m with state := .errored })) ∨
      (m.effect f = .ok none ∧ m.step = (.ok .blocked, { m with state := .blocked })) ∨
      ∃ e, m.effect f = .ok (some e) ∧
        m.step = (.ok (if e = .halt then .halted else .executed f.instruction), m.commit f e)) := by
  cases hf : m.fetch with
  | error e => exact .inl ⟨e, rfl, step_of_fetch_error h hf⟩
  | ok f =>
    refine .inr ⟨f, rfl, ?_⟩
    cases he : m.effect f with
    | error e => exact .inl ⟨e, rfl, step_of_effect_error h hf he⟩
    | ok o =>
      cases o with
      | none => exact .inr (.inl ⟨rfl, step_of_starved h hf he⟩)
      | some e => exact .inr (.inr ⟨e, rfl, step_of_effect h hf he⟩)

end Rules

theorem not_terminal_of_step_ok {m : Machine} {s : Step} {after : Machine}
    (h : m.step = (.ok s, after)) : m.state.isTerminal = false := by
  cases ht : m.state.isTerminal with
  | false => rfl
  | true => simp [step_of_terminal ht] at h

theorem step_state {m : Machine} {s : Step} {after : Machine} (h : m.step = (.ok s, after)) :
    after.state = s.state := by
  obtain ⟨e, _, hs⟩ | ⟨f, _, ⟨e, _, hs⟩ | ⟨_, hs⟩ | ⟨e, _, hs⟩⟩ := step_cases (not_terminal_of_step_ok h)
  · simp [h] at hs
  · simp [h] at hs
  · rw [h] at hs
    cases hs
    rfl
  · rw [h] at hs
    cases hs
    by_cases he : e = .halt <;> simp [commit, he, Step.state]

theorem step_blocked {m : Machine} (h : m.step.1 = .ok .blocked) :
    m.state.isTerminal = false ∧ m.step.2 = { m with state := .blocked } := by
  have ht := not_terminal_of_step_ok (Prod.ext h rfl : m.step = (.ok .blocked, m.step.2))
  refine ⟨ht, ?_⟩
  obtain ⟨e, _, hs⟩ | ⟨f, _, ⟨e, _, hs⟩ | ⟨_, hs⟩ | ⟨e, _, hs⟩⟩ := step_cases ht
  · simp [hs] at h
  · simp [hs] at h
  · rw [hs]
  · rw [hs] at h
    by_cases he : e = .halt <;> simp [he] at h

theorem effect_eq_none_iff {m : Machine} {f : Fetched} :
    m.effect f = .ok none ↔ f.instruction.opcode = .input ∧ m.input = [] := by
  unfold effect
  cases hop : f.instruction.opcode with
  | input =>
    cases hin : m.input with
    | nil => simp
    | cons v rest => simp [Fallible.bind_eq_ok, pure, Except.pure]
  | add | multiply | lessThan | equals | jumpIfTrue | jumpIfFalse => simp [Fallible.map_eq_ok]
  | output | adjustRelativeBase => simp [Fallible.bind_eq_ok, pure, Except.pure]
  | halt => simp

theorem effect_accept {m : Machine} {f : Fetched} {a : Nat} {v : Cell}
    (h : m.effect f = .ok (some (.accept a v))) : ∃ rest, m.input = v :: rest := by
  unfold effect at h
  cases hop : f.instruction.opcode with
  | input =>
    cases hin : m.input with
    | nil => simp [hop, hin] at h
    | cons u rest =>
      simp [hop, hin, Fallible.bind_eq_ok, pure, Except.pure] at h
      obtain ⟨_, _, rfl, rfl⟩ := h
      exact ⟨rest, rfl⟩
  | add | multiply | lessThan | equals =>
    rw [hop] at h
    obtain ⟨e, hc, he⟩ := Fallible.map_eq_ok.mp h
    cases he
    simp [combine, Fallible.bind_eq_ok, pure, Except.pure] at hc
  | jumpIfTrue | jumpIfFalse =>
    rw [hop] at h
    obtain ⟨e, hb, he⟩ := Fallible.map_eq_ok.mp h
    cases he
    simp only [branch, Fallible.bind_eq_ok, pure, Except.pure, Except.ok.injEq] at hb
    obtain ⟨_, _, _, _, hb⟩ := hb
    split at hb <;> simp at hb
  | output | adjustRelativeBase => simp [hop, Fallible.bind_eq_ok, pure, Except.pure] at h
  | halt => simp [hop] at h

def recorded (m : Machine) (f : Fetched) : Array TraceEntry :=
  if m.tracing then m.trace.push (m.traceEntry f) else m.trace

/-- A commit field by field: the effect settles registers, memory and queues, and nothing else does. -/
theorem commit_eq (m : Machine) (f : Fetched) (e : Effect) :
    m.commit f e =
      { m.apply f.instruction.width e with
        state := if e = .halt then .halted else .running
        steps := m.steps + 1
        trace := m.recorded f } := by
  cases ht : m.tracing <;> cases e <;> simp [commit, apply, record, recorded, ht]

theorem pushInput_nil (m : Machine) : m.pushInput [] = m := by simp [pushInput]

@[simp] theorem pushInput_append (m : Machine) (a b : List Cell) :
    (m.pushInput a).pushInput b = m.pushInput (a ++ b) := by
  simp [pushInput, List.append_assoc]

theorem effect_pushInput {m : Machine} {f : Fetched} (w : List Cell) (h : m.effect f ≠ .ok none) :
    (m.pushInput w).effect f = m.effect f := by
  cases hop : f.instruction.opcode with
  | input =>
    cases hin : m.input with
    | nil => exact absurd (effect_eq_none_iff.mpr ⟨hop, hin⟩) h
    | cons v rest =>
      simp only [effect, hop, hin, pushInput, List.cons_append]
      rfl
  | halt => simp only [effect, hop]
  | _ =>
    simp only [effect, hop]
    rfl

theorem commit_pushInput {m : Machine} {f : Fetched} {e : Effect} (w : List Cell)
    (h : m.effect f = .ok (some e)) : (m.pushInput w).commit f e = (m.commit f e).pushInput w := by
  have hrecorded : (m.pushInput w).recorded f = m.recorded f := rfl
  rw [commit_eq, commit_eq, hrecorded]
  cases e with
  | accept a v =>
    obtain ⟨rest, hin⟩ := effect_accept h
    simp [pushInput, apply, hin]
  | _ => rfl

/-- Input queued behind what a step reads is carried along unchanged. -/
theorem step_pushInput {m : Machine} (w : List Cell) (h : m.step.1 ≠ .ok .blocked) :
    (m.pushInput w).step = (m.step.1, m.step.2.pushInput w) := by
  cases ht : m.state.isTerminal with
  | true =>
    rw [step_of_terminal ht]
    exact step_of_terminal (m := m.pushInput w) ht
  | false =>
    have ht' : (m.pushInput w).state.isTerminal = false := ht
    obtain ⟨e, hf, hs⟩ | ⟨f, hf, ⟨e, he, hs⟩ | ⟨he, hs⟩ | ⟨e, he, hs⟩⟩ := step_cases ht
    · rw [hs]
      exact step_of_fetch_error ht' hf
    · rw [hs]
      have he' := effect_pushInput (f := f) w (m := m) (by simp [he])
      exact step_of_effect_error ht' hf (he'.trans he)
    · simp [hs] at h
    · rw [hs]
      have he' := effect_pushInput (f := f) w (m := m) (by simp [he])
      rw [step_of_effect ht' hf (he'.trans he), commit_pushInput w he]

theorem step_withState {m : Machine} {s : State} (h : m.state.isTerminal = false)
    (hs : s.isTerminal = false) : { m with state := s }.step = m.step := by
  have hcommit : ∀ f e, { m with state := s }.commit f e = m.commit f e := by
    intro f e
    have hrecorded : { m with state := s }.recorded f = m.recorded f := rfl
    rw [commit_eq, commit_eq, hrecorded]
    cases e <;> rfl
  have h' : { m with state := s }.state.isTerminal = false := hs
  obtain ⟨e, hf, hstep⟩ | ⟨f, hf, ⟨e, he, hstep⟩ | ⟨he, hstep⟩ | ⟨e, he, hstep⟩⟩ := step_cases h
  · rw [hstep]
    exact step_of_fetch_error h' hf
  · rw [hstep]
    exact step_of_effect_error h' hf he
  · rw [hstep]
    exact step_of_starved h' hf he
  · rw [hstep, step_of_effect h' hf he, hcommit]

/-- A change to the machine that touches nothing an instruction depends on is carried through a step. -/
theorem step_carry {g : Machine → Machine} {m : Machine} (hstate : (g m).state = m.state)
    (hfetch : (g m).fetch = m.fetch) (heffect : ∀ f, (g m).effect f = m.effect f)
    (hcommit : ∀ f e, (g m).commit f e = g (m.commit f e))
    (hstop : ∀ s, { g m with state := s } = g { m with state := s }) :
    (g m).step = (m.step.1, g m.step.2) := by
  cases h : m.state.isTerminal with
  | true =>
    have h' : (g m).state.isTerminal = true := hstate ▸ h
    rw [step_of_terminal h, step_of_terminal h', hstate]
  | false =>
    have h' : (g m).state.isTerminal = false := hstate ▸ h
    obtain ⟨e, hf, hs⟩ | ⟨f, hf, ⟨e, he, hs⟩ | ⟨he, hs⟩ | ⟨e, he, hs⟩⟩ := step_cases h
    · rw [hs, step_of_fetch_error h' (hfetch.trans hf), hstop]
    · rw [hs, step_of_effect_error h' (hfetch.trans hf) ((heffect f).trans he), hstop]
    · rw [hs, step_of_starved h' (hfetch.trans hf) ((heffect f).trans he), hstop]
    · rw [hs, step_of_effect h' (hfetch.trans hf) ((heffect f).trans he), hcommit]

def undrain (m : Machine) (front : Array Cell) : Machine := { m with output := front ++ m.output }

theorem step_undrain (m : Machine) (front : Array Cell) :
    (m.undrain front).step = (m.step.1, m.step.2.undrain front) := by
  have hcommit : ∀ f e, (m.undrain front).commit f e = (m.commit f e).undrain front := by
    intro f e
    have hrecorded : (m.undrain front).recorded f = m.recorded f := rfl
    rw [commit_eq, commit_eq, hrecorded]
    cases e with
    | emit v => simp [undrain, apply]
    | _ => rfl
  exact step_carry (g := (·.undrain front)) rfl rfl (fun _ => rfl) hcommit fun _ => rfl

end Machine

end Intcode
