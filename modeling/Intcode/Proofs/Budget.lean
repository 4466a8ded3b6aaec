import Intcode.Proofs.Run
set_option autoImplicit false

/-!
Step budgets. A budget bounds the instructions of a run, the halting one included, and cutting a budget
in two makes no difference to where the run ends. The loop counts the instructions after which it can go
on; the machine's own counter counts the halting one too, and neither counts a step that starves or fails.
-/
namespace Intcode

theorem Count.toNat_add_ofNat {a : Count} {n : Nat} (h : a.toNat + n < UInt64.size) :
    (a + UInt64.ofNat n).toNat = a.toNat + n := by
  rw [UInt64.toNat_add, UInt64.toNat_ofNat', Nat.add_mod_mod]
  exact Nat.mod_eq_of_lt h

namespace Machine

/-- On the way from one machine to the other `n` instructions were executed. The last of them may have
been a halt; if not, a step that starved or failed may have come after it. -/
inductive Passes : Nat → Machine → Machine → Prop
  | pause {n : Nat} {m after : Machine} : Executes n m after → Passes n m after
  | starve {n : Nat} {m last after : Machine} :
      Executes n m last → last.step = (.ok .blocked, after) → Passes n m after
  | halt {n : Nat} {m last after : Machine} :
      Executes n m last → last.step = (.ok .halted, after) → Passes (n + 1) m after
  | fail {n : Nat} {m last after : Machine} {e : MachineError} :
      Executes n m last → last.step = (.error e, after) → Passes n m after

def RunsIn (m : Machine) (input : List Cell) (n : Nat) (result : Except MachineError State)
    (after : Machine) : Prop :=
  ∃ last out, Executes n (m.pushInput input) last ∧ last.step = (out, after) ∧
    Step.answer? out = some result

variable {m after : Machine} {n : Nat} {result : Except MachineError State}

theorem runs_iff_exists_runsIn {input : List Cell} (h : m.state.isTerminal = false) :
    m.Runs input result after ↔ ∃ n, m.RunsIn input n result after := by
  rw [runs_iff h, finishes_iff]
  rfl

theorem step_ok_steps {s : Step} (h : m.step = (.ok s, after)) :
    after.steps = if s = .blocked then m.steps else m.steps + 1 := by
  obtain ⟨e, _, hs⟩ | ⟨f, _, ⟨e, _, hs⟩ | ⟨_, hs⟩ | ⟨e, _, hs⟩⟩ := step_cases (not_terminal_of_step_ok h)
  · simp [h] at hs
  · simp [h] at hs
  · rw [h] at hs
    cases hs
    simp
  · rw [h] at hs
    cases hs
    by_cases he : e = .halt <;> simp [he, commit_eq]

theorem step_error_steps {e : MachineError} (h : m.step = (.error e, after)) :
    after.steps = m.steps := by
  cases ht : m.state.isTerminal with
  | true =>
    rw [step_of_terminal ht] at h
    cases h
    rfl
  | false =>
    obtain ⟨_, _, hs⟩ | ⟨_, _, ⟨_, _, hs⟩ | ⟨_, hs⟩ | ⟨_, _, hs⟩⟩ := step_cases ht <;>
      rw [h] at hs <;> cases hs <;> rfl

theorem Executes.steps (h : Executes n m after) : after.steps = m.steps + UInt64.ofNat n := by
  induction h with
  | refl m => simp
  | @next n m mid after i hs _ ih =>
    rw [ih, step_ok_steps hs, if_neg (by simp), UInt64.ofNat_add, UInt64.add_assoc,
      UInt64.add_comm (UInt64.ofNat n)]
    rfl

theorem Passes.steps (h : Passes n m after) : after.steps = m.steps + UInt64.ofNat n := by
  cases h with
  | pause hx => exact hx.steps
  | starve hx hs => rw [step_ok_steps hs, if_pos rfl, hx.steps]
  | @halt n _ _ _ hx hs =>
    rw [step_ok_steps hs, if_neg (by simp), hx.steps, UInt64.ofNat_add, UInt64.add_assoc]
    rfl
  | fail hx hs => rw [step_error_steps hs, hx.steps]

theorem Passes.toNat_steps (h : Passes n m after) (hn : m.steps.toNat + n < UInt64.size) :
    after.steps.toNat = m.steps.toNat + n := by
  rw [h.steps]
  exact Count.toNat_add_ofNat hn

theorem exists_passes_advance (n : Nat) (m : Machine) : ∃ k ≤ n, Passes k m (advance n m).2 := by
  obtain ⟨_, hx⟩ | ⟨k, last, out, _, hk, hx, hs, ha, _⟩ := advance_cases n m
  · exact ⟨n, Nat.le_refl n, .pause hx⟩
  · cases out with
    | error e => exact ⟨k, by omega, .fail hx hs⟩
    | ok s =>
      cases s with
      | executed i => simp [Step.answer?] at ha
      | blocked => exact ⟨k, by omega, .starve hx hs⟩
      | halted => exact ⟨k + 1, by omega, .halt hx hs⟩

def within (n : Nat) (m : Machine) : Except MachineError State × Machine :=
  ((advance n m).1.result?.getD (.ok (advance n m).2.state), (advance n m).2)

theorem runLimited_eq_within {input : List Cell} {budget : Count} (h : m.state.isTerminal = false) :
    m.runLimited input budget = within budget.toNat (m.pushInput input) := runLimited_eq h

theorem within_cases (n : Nat) (m : Machine) :
    (Executes n m (within n m).2 ∧ (within n m).1 = .ok (within n m).2.state) ∨
    ∃ k last out, k < n ∧ Executes k m last ∧ last.step = (out, (within n m).2) ∧
      Step.answer? out = some (within n m).1 := by
  obtain ⟨hp, hx⟩ | ⟨k, last, out, result, hk, hx, hs, ha, hr⟩ := advance_cases n m
  · exact .inl ⟨hx, by simp [within, hp, Stop.result?]⟩
  · exact .inr ⟨k, last, out, hk, hx, hs, by simp [within, hr, ha]⟩

theorem within_of_executes {mid : Machine} (h : Executes n m mid) (k : Nat) :
    within (n + k) m = within k mid := by
  simp only [within, advance_add k h]

theorem within_of_ended {last : Machine} {out : Except MachineError Step} (hx : Executes n m last)
    (hs : last.step = (out, after)) (ha : Step.answer? out = some result) (k : Nat) :
    within (n + (k + 1)) m = (result, after) := by
  rw [within_of_executes hx]
  unfold within advance
  rw [hs]
  cases out with
  | error e =>
    cases ha
    rfl
  | ok s =>
    cases s with
    | executed i => simp [Step.answer?] at ha
    | blocked | halted =>
      cases ha
      rfl

theorem within_of_blocked {last : Machine} (hs : last.step = (.ok .blocked, m)) (k : Nat) :
    within k m = (.ok .blocked, m) := by
  have hstate : m.state = .blocked := step_state hs
  cases k with
  | zero => simp [within, advance, Stop.result?, hstate]
  | succ k =>
    obtain ⟨ht, hm⟩ := step_blocked (m := last) (by rw [hs])
    have hagain : { last with state := State.blocked }.step = last.step := step_withState ht rfl
    rw [← hm, hs] at hagain
    have hended := within_of_ended (Executes.refl m) hagain rfl k
    rwa [Nat.zero_add] at hended

theorem not_terminal_of_within {s : State} (ht : m.state.isTerminal = false)
    (h : within n m = (.ok s, after)) (hs : s ≠ .halted) : after.state.isTerminal = false := by
  obtain ⟨hx, _⟩ | ⟨_, last, out, _, _, hstep, ha⟩ := within_cases n m
  · rw [h] at hx
    exact hx.not_terminal ht
  · rw [h] at hstep ha
    cases out with
    | error e => simp [Step.answer?] at ha
    | ok t =>
      rw [step_state hstep]
      cases t with
      | executed i => rfl
      | blocked => rfl
      | halted =>
        cases ha
        exact absurd rfl hs

theorem within_add {s : State} (h : within n m = (.ok s, after)) (hs : s ≠ .halted) (k : Nat) :
    within k after = within (n + k) m := by
  obtain ⟨hx, _⟩ | ⟨j, last, out, hj, hx, hstep, ha⟩ := within_cases n m
  · rw [h] at hx
    exact (within_of_executes hx k).symm
  -- The run ended before the budget did, without halting: it has starved, and would starve again.
  · rw [h] at hstep ha
    obtain ⟨d, rfl⟩ : ∃ d, n = j + (d + 1) := ⟨n - j - 1, by omega⟩
    rw [Nat.add_assoc, Nat.add_right_comm, within_of_ended hx hstep ha]
    cases out with
    | error e => simp [Step.answer?] at ha
    | ok t =>
      cases t with
      | executed i => simp [Step.answer?] at ha
      | halted =>
        cases ha
        exact absurd rfl hs
      | blocked =>
        cases ha
        exact within_of_blocked hstep k

theorem within_add_of_terminal (ht : m.state.isTerminal = false) (h : within n m = (result, after))
    (hr : result = .ok .halted ∨ ∃ e, result = .error e) (k : Nat) :
    within (n + k) m = (result, after) := by
  obtain ⟨hx, hstate⟩ | ⟨j, last, out, hj, hx, hstep, ha⟩ := within_cases n m
  · rw [h] at hx hstate
    have hlive := hx.not_terminal ht
    obtain hr | ⟨e, hr⟩ := hr
    · simp only [hr, Except.ok.injEq] at hstate
      simp [← hstate, State.isTerminal] at hlive
    · simp [hr] at hstate
  · rw [h] at hstep ha
    obtain ⟨d, rfl⟩ : ∃ d, n = j + (d + 1) := ⟨n - j - 1, by omega⟩
    rw [Nat.add_assoc, Nat.add_right_comm, within_of_ended hx hstep ha]

theorem Executes.state_running (h : Executes n m after) (hn : 0 < n) : after.state = .running := by
  induction h with
  | refl m => omega
  | @next n m mid after i hs hx ih =>
    cases n with
    | zero =>
      cases hx
      exact step_state hs
    | succ n => exact ih (by omega)

/-- The budget is the reason to stop only when all of it was spent on instructions. -/
theorem within_eq_running_iff (hn : 0 < n) : within n m = (.ok .running, after) ↔ Executes n m after := by
  constructor
  · intro h
    obtain ⟨hx, _⟩ | ⟨j, last, out, _, _, _, ha⟩ := within_cases n m
    · rwa [h] at hx
    · rw [h] at ha
      cases out with
      | error e => simp [Step.answer?] at ha
      | ok t => cases t <;> simp [Step.answer?] at ha
  · intro hx
    have hzero := within_of_executes hx 0
    rw [Nat.add_zero] at hzero
    rw [hzero]
    simp [within, advance, Stop.result?, hx.state_running hn]

/-- Budgets compose: a run cut off after `n` steps and taken up with `k` more is one run with `n + k`. -/
theorem runLimited_add (m : Machine) (ht : m.state.isTerminal = false) (a : List Cell) (n k : Count)
    (hnk : n.toNat + k.toNat < UInt64.size) :
    (∃ j ≤ n.toNat, Passes j (m.pushInput a) (m.runLimited a n).2 ∧
      (m.steps.toNat + j < UInt64.size → (m.runLimited a n).2.steps.toNat = m.steps.toNat + j)) ∧
    (∀ s m₁, m.runLimited a n = (.ok s, m₁) → s ≠ .halted →
      m₁.runLimited [] k = m.runLimited a (n + k)) ∧
    (∀ result m₁, m.runLimited a n = (result, m₁) →
      (result = .ok .halted ∨ ∃ e, result = .error e) → m.runLimited a (n + k) = (result, m₁)) ∧
    (1 ≤ n.toNat → ∀ m₁, m.runLimited a n = (.ok .running, m₁) ↔
      Executes n.toNat (m.pushInput a) m₁) ∧
    ∀ result m₁, (m.Runs a result m₁ ↔ ∃ j, m.RunsIn a j result m₁) ∧
      ∀ j < n.toNat, m.RunsIn a j result m₁ → m.runLimited a n = (result, m₁) := by
  have hpush : (m.pushInput a).state.isTerminal = false := ht
  have hsum : (n + k).toNat = n.toNat + k.toNat := by
    rw [UInt64.toNat_add]
    exact Nat.mod_eq_of_lt hnk
  simp only [runLimited_eq_within ht, hsum]
  refine ⟨?_, ?_, ?_, ?_, ?_⟩
  · obtain ⟨j, hj, hp⟩ := exists_passes_advance n.toNat (m.pushInput a)
    exact ⟨j, hj, hp, hp.toNat_steps⟩
  · intro s m₁ h hs
    have hlive := not_terminal_of_within hpush h hs
    have hnil : m₁.pushInput [] = m₁ := by simp [pushInput]
    rw [runLimited_eq_within hlive, hnil]
    exact within_add h hs k.toNat
  · intro result m₁ h hr
    exact within_add_of_terminal hpush h hr k.toNat
  · intro hn m₁
    exact within_eq_running_iff hn
  · intro result m₁
    refine ⟨runs_iff_exists_runsIn ht, ?_⟩
    intro j hj h
    obtain ⟨last, out, hx, hstep, ha⟩ := h
    obtain ⟨d, hd⟩ : ∃ d, n.toNat = j + (d + 1) := ⟨n.toNat - j - 1, by omega⟩
    rw [hd]
    exact within_of_ended hx hstep ha d

/-- Two outputs and a halt: a budget of two stops before the halt, and one more instruction is the halt
itself, just within a budget of three. -/
theorem runLimited_add_outputs :
    let m := ofMemory #[] [] ⟨#[104, 5, 104, 6, 99], .strict, 5⟩
    ∃ m₁ m₂, m.runLimited [8] 2 = (.ok .running, m₁) ∧ m₁.runLimited [] 1 = (.ok .halted, m₂) ∧
      m.runLimited [8] (2 + 1) = (.ok .halted, m₂) ∧ m₂.steps.toNat = 3 ∧ m₂.output = #[5, 6] := by
  intro m
  have hpaused : (m.runLimited [8] 2).1 = .ok .running := Fallible.toOption_eq_some.mp (by decide +kernel)
  have hhalted : (m.runLimited [8] (2 + 1)).1 = .ok .halted :=
    Fallible.toOption_eq_some.mp (by decide +kernel)
  have hadd := (runLimited_add m rfl [8] 2 1 (by decide)).2.1 .running (m.runLimited [8] 2).2
    (Prod.ext hpaused rfl) (by decide)
  refine ⟨_, _, Prod.ext hpaused rfl, ?_, Prod.ext hhalted rfl, by decide +kernel, by decide +kernel⟩
  rw [hadd]
  exact Prod.ext hhalted rfl

end Machine

end Intcode
