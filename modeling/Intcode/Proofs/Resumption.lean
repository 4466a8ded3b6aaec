import Intcode.Proofs.Run
set_option autoImplicit false

/-!
Input may come in pieces. A run that starves is taken up where it stopped by the next one, so a machine
that is given its input piece by piece does what it would have done with all of it at once.
-/
namespace Intcode

namespace Machine

variable {m after : Machine}

theorem Executes.pushInput {n : Nat} (h : Executes n m after) (w : List Cell) :
    Executes n (m.pushInput w) (after.pushInput w) := by
  induction h with
  | refl m => exact .refl _
  | @next n m mid after i hs _ ih =>
    refine .next (i := i) ?_ ih
    rw [step_pushInput w (by simp [hs]), hs]

theorem Finishes.pushInput {result : Except MachineError State} (h : m.Finishes result after)
    (hr : result ≠ .ok .blocked) (w : List Cell) : (m.pushInput w).Finishes result (after.pushInput w) := by
  obtain ⟨n, last, out, hx, hs, ha⟩ := finishes_iff.mp h
  have hout : out ≠ .ok .blocked := by
    intro heq
    subst heq
    simp only [Step.answer?, Option.some.injEq] at ha
    exact hr ha.symm
  refine finishes_iff.mpr ⟨n, last.pushInput w, out, hx.pushInput w, ?_, ha⟩
  rw [step_pushInput w (by rw [hs]; exact hout), hs]

theorem exists_starved (h : m.Finishes (.ok .blocked) after) :
    ∃ n last, Executes n m last ∧ last.state.isTerminal = false ∧
      after = { last with state := .blocked } := by
  obtain ⟨n, last, out, hx, hs, ha⟩ := finishes_iff.mp h
  have hout : out = .ok .blocked := by
    cases out with
    | error e => simp [Step.answer?] at ha
    | ok s => cases s <;> simp [Step.answer?] at ha ⊢
  subst hout
  obtain ⟨ht, hafter⟩ := step_blocked (m := last) (by rw [hs])
  rw [hs] at hafter
  exact ⟨n, last, hx, ht, hafter⟩

/-- After a starved run the machine goes on with new input as if that had been queued from the start. -/
theorem finishes_pushInput_iff (h : m.Finishes (.ok .blocked) after) (w : List Cell)
    (result : Except MachineError State) (final : Machine) :
    (after.pushInput w).Finishes result final ↔ (m.pushInput w).Finishes result final := by
  obtain ⟨n, last, hx, ht, rfl⟩ := exists_starved h
  have hstep : ({ last with state := .blocked }.pushInput w).step = (last.pushInput w).step :=
    step_withState (m := last.pushInput w) (s := .blocked) ht rfl
  rw [finishes_iff_of_step_eq hstep]
  exact (finishes_iff_of_executes (hx.pushInput w)).symm

def Starves : Machine → List (List Cell) → Machine → Prop
  | m, [], after => after = m
  | m, piece :: pieces, after => ∃ mid, m.Runs piece (.ok .blocked) mid ∧ mid.Starves pieces after

theorem runs_append_iff (ht : m.state.isTerminal = false) {a : List Cell}
    (h : m.Runs a (.ok .blocked) after) (b : List Cell) (result : Except MachineError State)
    (final : Machine) : after.Runs b result final ↔ m.Runs (a ++ b) result final := by
  rw [runs_iff ht] at h ⊢
  obtain ⟨_, _, _, _, hafter⟩ := exists_starved h
  have ht' : after.state.isTerminal = false := by rw [hafter]; rfl
  rw [runs_iff ht', finishes_pushInput_iff h, pushInput_append]

theorem not_terminal_of_runs_blocked {a : List Cell} (h : m.Runs a (.ok .blocked) after) :
    m.state.isTerminal = false ∧ after.state.isTerminal = false := by
  cases ht : m.state.isTerminal with
  | true => simp [runs_of_terminal ht] at h
  | false =>
    obtain ⟨_, _, _, _, rfl⟩ := exists_starved ((runs_iff ht).mp h)
    exact ⟨rfl, rfl⟩

theorem runs_flatten_iff {pieces : List (List Cell)} (ht : m.state.isTerminal = false)
    (h : m.Starves pieces after) (last : List Cell) (result : Except MachineError State)
    (final : Machine) : after.Runs last result final ↔ m.Runs (pieces.flatten ++ last) result final := by
  induction pieces generalizing m with
  | nil =>
    obtain rfl : after = m := h
    simp
  | cons piece pieces ih =>
    obtain ⟨mid, hr, hs⟩ := h
    rw [ih (not_terminal_of_runs_blocked hr).2 hs, List.flatten_cons, List.append_assoc]
    exact runs_append_iff ht hr _ _ _

/-- A run that starved goes on, with new input, as if that had been queued from the start, and leaves input
that comes after a halt or a failure in the queue. So it does not matter into which pieces input is cut. -/
theorem run_resumes (m : Machine) (h : m.state.isTerminal = false) (a b : List Cell) :
    (∀ m₁, m.Runs a (.ok .blocked) m₁ →
      ∀ result after, m₁.Runs b result after ↔ m.Runs (a ++ b) result after) ∧
    (∀ result m₁, m.Runs a result m₁ → (result = .ok .halted ∨ ∃ e, result = .error e) →
      m.Runs (a ++ b) result (m₁.pushInput b)) ∧
    (∀ pieces m₁, m.Starves pieces m₁ →
      ∀ last result after, m₁.Runs last result after ↔ m.Runs (pieces.flatten ++ last) result after) := by
  refine ⟨?_, ?_, ?_⟩
  · intro m₁ hr
    exact runs_append_iff h hr b
  · intro result m₁ hr hend
    have hne : result ≠ .ok .blocked := by
      intro heq
      subst heq
      simp at hend
    rw [runs_iff h] at hr ⊢
    rw [← pushInput_append]
    exact hr.pushInput hne b
  · intro pieces m₁ hs
    exact runs_flatten_iff h hs

theorem run_resumes_until_zero :
    let code : Array Cell := #[3, 9, 1006, 9, 8, 1105, 1, 0, 99, 0]
    let m := ofMemory code [] ⟨code, .strict, 10⟩
    ∃ m₁ m₂, m.Runs [4, 5] (.ok .blocked) m₁ ∧ m₁.Runs [0] (.ok .halted) m₂ ∧
      m.Runs ([4, 5] ++ [0]) (.ok .halted) m₂ ∧
      m.Runs ([4, 5, 0] ++ [7]) (.ok .halted) (m₂.pushInput [7]) ∧
      m.Runs ([[4, 5]].flatten ++ [0]) (.ok .halted) m₂ := by
  intro code m
  have hblocked := runs_of_advance m [4, 5] 9 .blocked rfl (by decide +kernel) rfl
  have hhalted := runs_of_advance (advance 9 (m.pushInput [4, 5])).2 [0] 3 .halted
    (by decide +kernel) (by decide +kernel) rfl
  have hstarves : m.Starves [[4, 5]] (advance 9 (m.pushInput [4, 5])).2 := ⟨_, hblocked, rfl⟩
  have hwhole := ((run_resumes m rfl [4, 5] [0]).1 _ hblocked _ _).mp hhalted
  refine ⟨_, _, hblocked, hhalted, hwhole, ?_, ?_⟩
  · exact (run_resumes m rfl [4, 5, 0] [7]).2.1 _ _ hwhole (.inl rfl)
  · exact ((run_resumes m rfl [] []).2.2 _ _ hstarves _ _ _).mp hhalted

end Machine

end Intcode
