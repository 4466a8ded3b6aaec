import Intcode.Machine.Run
import Intcode.Proofs.Step
set_option autoImplicit false

/-!
Runs, taken apart into steps. A run is some instructions after one another, each of which lets the
machine go on (`Machine.Executes`), and then a step that ends it (`Machine.Finishes`). The loop
`Machine.advance` does exactly this, as far as it is allowed to go.
-/
namespace Intcode

/-- The answer of a run whose last step had this outcome; a run does not end with an instruction after
which the machine can go on. -/
def Step.answer? : Except MachineError Step → Option (Except MachineError State)
  | .ok (.executed _) => none
  | .ok .blocked => some (.ok .blocked)
  | .ok .halted => some (.ok .halted)
  | .error e => some (.error e)

namespace Machine

inductive Executes : Nat → Machine → Machine → Prop
  | refl (m : Machine) : Executes 0 m m
  | next {n : Nat} {m mid after : Machine} {i : Instruction} :
      m.step = (.ok (.executed i), mid) → Executes n mid after → Executes (n + 1) m after

inductive Finishes : Machine → Except MachineError State → Machine → Prop
  | stop {m after : Machine} {out : Except MachineError Step} {result : Except MachineError State} :
      m.step = (out, after) → Step.answer? out = some result → Finishes m result after
  | next {m mid after : Machine} {i : Instruction} {result : Except MachineError State} :
      m.step = (.ok (.executed i), mid) → Finishes mid result after → Finishes m result after

variable {m mid after : Machine} {result : Except MachineError State}

theorem Executes.not_terminal {n : Nat} (h : Executes n m after) (ht : m.state.isTerminal = false) :
    after.state.isTerminal = false := by
  induction h with
  | refl m => exact ht
  | next hs _ ih =>
    apply ih
    rw [step_state hs]
    rfl

theorem finishes_iff_of_executes {n : Nat} (h : Executes n m mid) :
    m.Finishes result after ↔ mid.Finishes result after := by
  induction h with
  | refl m => rfl
  | next hs _ ih =>
    rw [← ih]
    constructor
    · intro h
      cases h with
      | stop hs' ha =>
        rw [hs] at hs'
        cases hs'
        simp [Step.answer?] at ha
      | next hs' h =>
        rw [hs] at hs'
        cases hs'
        exact h
    · exact .next hs

theorem finishes_iff_of_step_eq (h : m.step = mid.step) :
    m.Finishes result after ↔ mid.Finishes result after := by
  constructor
  · intro hf
    cases hf with
    | stop hs ha => exact .stop (h ▸ hs) ha
    | next hs hf => exact .next (h ▸ hs) hf
  · intro hf
    cases hf with
    | stop hs ha => exact .stop (h ▸ hs) ha
    | next hs hf => exact .next (h ▸ hs) hf

theorem finishes_iff : m.Finishes result after ↔
    ∃ n last out, Executes n m last ∧ last.step = (out, after) ∧ Step.answer? out = some result := by
  constructor
  · intro h
    induction h with
    | stop hs ha => exact ⟨0, _, _, .refl _, hs, ha⟩
    | next hs _ ih =>
      obtain ⟨n, last, out, hx, hl, ha⟩ := ih
      exact ⟨n + 1, last, out, .next hs hx, hl, ha⟩
  · intro h
    rcases h with ⟨n, last, out, hx, hl, ha⟩
    exact (finishes_iff_of_executes hx).mpr (.stop hl ha)

theorem Finishes.unique {result' : Except MachineError State} {after' : Machine}
    (h : m.Finishes result after) (h' : m.Finishes result' after') :
    result = result' ∧ after = after' := by
  induction h with
  | stop hs ha =>
    cases h' with
    | stop hs' ha' =>
      rw [hs] at hs'
      cases hs'
      rw [ha] at ha'
      cases ha'
      exact ⟨rfl, rfl⟩
    | next hs' _ =>
      rw [hs] at hs'
      cases hs'
      simp [Step.answer?] at ha
  | next hs _ ih =>
    cases h' with
    | stop hs' ha' =>
      rw [hs] at hs'
      cases hs'
      simp [Step.answer?] at ha'
    | next hs' h' =>
      rw [hs] at hs'
      cases hs'
      exact ih h'

/-- The loop either takes all the steps it may, or it stops at the step that ends the run. -/
theorem advance_cases (n : Nat) (m : Machine) :
    ((advance n m).1 = .paused ∧ Executes n m (advance n m).2) ∨
    ∃ k last out result, k < n ∧ Executes k m last ∧ last.step = (out, (advance n m).2) ∧
      Step.answer? out = some result ∧ (advance n m).1.result? = some result := by
  induction n generalizing m with
  | zero => exact .inl ⟨rfl, .refl m⟩
  | succ n ih =>
    rcases hs : m.step with ⟨out, mid⟩
    unfold advance
    rw [hs]
    cases out with
    | error e => exact .inr ⟨0, m, _, .error e, by omega, .refl m, hs, rfl, rfl⟩
    | ok s =>
      cases s with
      | blocked => exact .inr ⟨0, m, _, .ok .blocked, by omega, .refl m, hs, rfl, rfl⟩
      | halted => exact .inr ⟨0, m, _, .ok .halted, by omega, .refl m, hs, rfl, rfl⟩
      | executed i =>
        obtain ⟨hp, hx⟩ | ⟨k, last, out, result, hk, hx, hl, ha, hr⟩ := ih mid
        · exact .inl ⟨hp, .next hs hx⟩
        · exact .inr ⟨k + 1, last, out, result, by omega, .next hs hx, hl, ha, hr⟩

theorem advance_add {n : Nat} (k : Nat) (h : Executes n m mid) : advance (n + k) m = advance k mid := by
  induction h with
  | refl m => simp
  | next hs _ ih =>
    rw [Nat.add_right_comm]
    simp only [advance, hs]
    exact ih

theorem advance_one {out : Except MachineError Step} (hs : m.step = (out, after))
    (ha : Step.answer? out = some result) :
    (advance 1 m).1.result? = some result ∧ (advance 1 m).2 = after := by
  unfold advance
  rw [hs]
  cases out with
  | error e => exact ⟨ha, rfl⟩
  | ok s =>
    cases s with
    | executed i => simp [Step.answer?] at ha
    | blocked => exact ⟨ha, rfl⟩
    | halted => exact ⟨ha, rfl⟩

/-- A run without a bound on its steps ends exactly as the steps say. -/
theorem runs_iff {input : List Cell} (h : m.state.isTerminal = false) :
    m.Runs input result after ↔ (m.pushInput input).Finishes result after := by
  unfold Runs run?
  simp only [h, Bool.false_eq_true, if_false, Option.map_eq_some_iff, Prod.mk.injEq]
  rw [finishes_iff]
  constructor
  · intro h
    rcases h with ⟨fuel, r, hr, rfl, rfl⟩
    obtain ⟨hp, _⟩ | ⟨k, last, out, r', _, hx, hl, ha, hr'⟩ := advance_cases fuel (m.pushInput input)
    · simp [hp, Stop.result?] at hr
    · rw [hr] at hr'
      cases hr'
      exact ⟨k, last, out, hx, hl, ha⟩
  · intro h
    rcases h with ⟨n, last, out, hx, hl, ha⟩
    obtain ⟨hr, hafter⟩ := advance_one hl ha
    refine ⟨n + 1, result, ?_, rfl, ?_⟩
    · rw [advance_add 1 hx, hr]
    · rw [advance_add 1 hx, hafter]

theorem runs_of_advance (m : Machine) (input : List Cell) (fuel : Nat) (stop : Stop)
    (ht : m.state.isTerminal = false) (h : (advance fuel (m.pushInput input)).1 = stop)
    (hr : stop.result? = some result) : m.Runs input result (advance fuel (m.pushInput input)).2 :=
  ⟨fuel, by simp [run?, ht, h, hr]⟩

theorem runLimited_eq {input : List Cell} {budget : Count} (ht : m.state.isTerminal = false) :
    m.runLimited input budget =
      ((advance budget.toNat (m.pushInput input)).1.result?.getD
        (.ok (advance budget.toNat (m.pushInput input)).2.state),
      (advance budget.toNat (m.pushInput input)).2) := by
  simp [runLimited, ht]

theorem runs_of_terminal {input : List Cell} (h : m.state.isTerminal = true) :
    m.Runs input result after ↔ result = .error (.notRunning m.state) ∧ after = m := by
  simp only [Runs, run?, h, if_true, Option.some.injEq, Prod.mk.injEq, exists_const]
  exact ⟨fun ⟨h₁, h₂⟩ => ⟨h₁.symm, h₂.symm⟩, fun ⟨h₁, h₂⟩ => ⟨h₁.symm, h₂.symm⟩⟩

theorem runs_unique {input : List Cell} {result' : Except MachineError State} {after' : Machine}
    (h : m.Runs input result after) (h' : m.Runs input result' after') :
    result = result' ∧ after = after' := by
  cases ht : m.state.isTerminal with
  | true =>
    rw [runs_of_terminal ht] at h h'
    exact ⟨h.1.trans h'.1.symm, h.2.trans h'.2.symm⟩
  | false =>
    rw [runs_iff ht] at h h'
    exact h.unique h'

end Machine

end Intcode
