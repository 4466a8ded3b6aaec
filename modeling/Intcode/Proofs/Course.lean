import Intcode.Proofs.Run
set_option autoImplicit false

/-!
The course of one machine: the steps it takes when it never starves. Input that arrives on the way and
output that is taken away leave it on its course, so what it has done is always a part of the course it
would run alone, with all it was ever sent queued at the start and none of its output taken.
-/
namespace Intcode

namespace Machine

inductive Moves : Machine → Machine → Prop
  | refl (m : Machine) : Moves m m
  | next {m after : Machine} : m.state.isTerminal = false → m.step.1 ≠ .ok .blocked →
      Moves m.step.2 after → Moves m after

def Stuck (m : Machine) : Prop := m.state.isTerminal = true ∨ m.step.1 = .ok .blocked

variable {m a b : Machine}

theorem Stuck.undrain (h : m.Stuck) (front : Array Cell) : (m.undrain front).Stuck := by
  obtain ht | hb := h
  · exact .inl ht
  · exact .inr (by rw [step_undrain, hb])

theorem Moves.trans (h : Moves m a) (h' : Moves a b) : Moves m b := by
  induction h with
  | refl m => exact h'
  | next ht hs _ ih => exact .next ht hs (ih h')

theorem Moves.pushInput (h : Moves m a) (w : List Cell) : Moves (m.pushInput w) (a.pushInput w) := by
  induction h with
  | refl m => exact .refl _
  | next ht hs _ ih =>
    have hstep := step_pushInput w hs
    refine .next ht ?_ ?_
    · rw [hstep]
      exact hs
    · rw [hstep]
      exact ih

theorem Stuck.eq_of_moves (hs : m.Stuck) (h : Moves m a) : a = m := by
  cases h with
  | refl => rfl
  | next ht hb _ =>
    obtain hs | hs := hs
    · simp [ht] at hs
    · exact absurd hs hb

/-- A course that has come to its end goes through every other. -/
theorem Moves.reach_stuck (h : Moves m a) (h' : Moves m b) (hb : b.Stuck) : Moves a b := by
  induction h with
  | refl m => exact h'
  | next ht hs h ih =>
    cases h' with
    | refl =>
      have hrest := hb.eq_of_moves (.next ht hs h)
      subst hrest
      exact .refl _
    | next _ _ h' => exact ih h'

theorem apply_output (m : Machine) (width : Nat) (e : Effect) :
    m.output.toList <+: (m.apply width e).output.toList := by
  cases e with
  | emit v => simp [apply]
  | _ => exact List.prefix_refl _

theorem step_output (m : Machine) : m.output.toList <+: m.step.2.output.toList := by
  cases ht : m.state.isTerminal with
  | true => simp [step_of_terminal ht]
  | false =>
    obtain ⟨e, _, hs⟩ | ⟨f, _, ⟨e, _, hs⟩ | ⟨_, hs⟩ | ⟨e, _, hs⟩⟩ := step_cases ht
    · simp [hs]
    · simp [hs]
    · simp [hs]
    · rw [hs, commit_eq]
      exact apply_output m _ e

theorem Moves.output (h : Moves m a) : m.output.toList <+: a.output.toList := by
  induction h with
  | refl m => exact List.prefix_refl _
  | @next m after _ _ _ ih => exact (step_output m).trans ih

/-- The same machine, but perhaps for the reason why it paused. -/
structure Alike (a b : Machine) : Prop where
  rest : a = { b with state := a.state }
  state : a.state = b.state ∨ a.state.isTerminal = false ∧ b.state.isTerminal = false

theorem Alike.refl (m : Machine) : m.Alike m := ⟨rfl, .inl rfl⟩

theorem Alike.isTerminal (h : a.Alike b) : a.state.isTerminal = b.state.isTerminal := by
  obtain hs | ⟨ha, hb⟩ := h.state
  · rw [hs]
  · rw [ha, hb]

theorem Alike.step (h : a.Alike b) (ht : b.state.isTerminal = false) : a.step = b.step := by
  have ha : a.state.isTerminal = false := h.isTerminal.trans ht
  rw [h.rest]
  exact step_withState ht ha

theorem Alike.stuck (h : a.Alike b) (hs : a.Stuck) : b.Stuck := by
  cases ht : b.state.isTerminal with
  | true => exact .inl ht
  | false =>
    obtain hs | hs := hs
    · simp [h.isTerminal, ht] at hs
    · exact .inr (by rw [← h.step ht]; exact hs)

theorem Alike.pushInput (h : a.Alike b) (w : List Cell) : (a.pushInput w).Alike (b.pushInput w) := by
  refine ⟨?_, h.state⟩
  have hrest := congrArg (Machine.pushInput · w) h.rest
  exact hrest

/-- What has become of `start` after it was sent `received` and `drained` was taken from it. -/
def Became (start : Machine) (received : List Cell) (drained : Array Cell) (now : Machine) : Prop :=
  ∃ m, Moves (start.pushInput received) m ∧ (now.undrain drained).Alike m

variable {start now : Machine} {received : List Cell} {drained : Array Cell}

theorem became_start (start : Machine) : Became start [] #[] start := by
  refine ⟨start, ?_, ?_⟩
  · simpa [pushInput] using Moves.refl start
  · simpa [undrain] using Alike.refl start

theorem Became.step (h : Became start received drained now) :
    Became start received drained now.step.2 := by
  obtain ⟨m, hm, hn⟩ := h
  have hundrain := step_undrain now drained
  cases ht : now.state.isTerminal with
  | true =>
    rw [step_of_terminal ht]
    exact ⟨m, hm, hn⟩
  | false =>
    have htm : m.state.isTerminal = false := hn.isTerminal.symm.trans ht
    have hstep := hn.step htm
    rw [hundrain] at hstep
    by_cases hb : now.step.1 = .ok .blocked
    · rw [(step_blocked hb).2]
      refine ⟨m, hm, ?_, .inr ⟨rfl, htm⟩⟩
      exact congrArg (fun x => { x with state := .blocked }) hn.rest
    · refine ⟨m.step.2, hm.trans (.next htm ?_ (.refl _)), ?_⟩
      · rw [← hstep]
        exact hb
      · rw [← hstep]
        exact Alike.refl _

theorem Became.drain (h : Became start received drained now) :
    Became start received (drained ++ now.output) now.clearOutput := by
  obtain ⟨m, hm, hn⟩ := h
  refine ⟨m, hm, ?_⟩
  have heq : now.clearOutput.undrain (drained ++ now.output) = now.undrain drained := by
    simp [undrain, clearOutput]
  rw [heq]
  exact hn

theorem Became.receive (h : Became start received drained now) (w : List Cell) :
    Became start (received ++ w) drained (now.pushInput w) := by
  obtain ⟨m, hm, hn⟩ := h
  refine ⟨m.pushInput w, ?_, hn.pushInput w⟩
  rw [← pushInput_append]
  exact hm.pushInput w

theorem Became.output_grows {received' : List Cell} {drained' : Array Cell} {last : Machine}
    (h : Became start received drained now) (h' : Became start received' drained' last)
    (hr : received <+: received') (hs : last.Stuck) :
    (drained ++ now.output).toList <+: (drained' ++ last.output).toList := by
  obtain ⟨a, ha, hnow⟩ := h
  obtain ⟨b, hb, hlast⟩ := h'
  obtain ⟨rest, rfl⟩ := hr
  have hahead : Moves (start.pushInput (received ++ rest)) (a.pushInput rest) := by
    rw [← pushInput_append]
    exact ha.pushInput rest
  have hout : a.output.toList <+: b.output.toList :=
    (hahead.reach_stuck hb (hlast.stuck (hs.undrain drained'))).output
  have hafter : a.output = drained ++ now.output := (congrArg Machine.output hnow.rest).symm
  have hblast : b.output = drained' ++ last.output := (congrArg Machine.output hlast.rest).symm
  rw [hafter, hblast] at hout
  exact hout

def Idle (m : Machine) : Prop := m.state.isTerminal = true ∨ m.state = .blocked ∧ m.input = []

instance (m : Machine) : Decidable m.Idle := inferInstanceAs (Decidable (_ ∨ _))

theorem Alike.state_of_idle (h : a.Alike m) (hi : a.Idle) :
    a.state = if m.state.isTerminal then m.state else .blocked := by
  cases ht : m.state.isTerminal with
  | true =>
    obtain hs | ⟨_, hm⟩ := h.state
    · simp [hs]
    · simp [ht] at hm
  | false =>
    obtain hi | ⟨hb, _⟩ := hi
    · simp [h.isTerminal, ht] at hi
    · simp [hb]

theorem Alike.eq_of_idle (ha : a.Alike m) (hb : b.Alike m) (hia : a.Idle) (hib : b.Idle) : a = b := by
  rw [ha.rest, hb.rest, ha.state_of_idle hia, hb.state_of_idle hib]

/-- A machine that says it is blocked, with nothing queued, is about to ask for input. -/
def Sincere (m : Machine) : Prop := m.state = .blocked → m.input = [] → m.step.1 = .ok .blocked

theorem sincere_ofMemory (program : Array Cell) (input : List Cell) (mem : Memory) :
    (ofMemory program input mem).Sincere := by
  intro hb
  cases hb

theorem Sincere.stuck (h : m.Sincere) (hi : m.Idle) : m.Stuck := by
  obtain ht | ⟨hb, hin⟩ := hi
  · exact .inl ht
  · exact .inr (h hb hin)

theorem Sincere.step (h : m.Sincere) : m.step.2.Sincere := by
  intro hb hin
  cases ht : m.state.isTerminal with
  | true =>
    simp only [step_of_terminal ht] at hb hin ⊢
    exact absurd (h hb hin) (by simp [step_of_terminal ht])
  | false =>
    obtain ⟨e, _, hs⟩ | ⟨f, _, ⟨e, _, hs⟩ | ⟨_, hs⟩ | ⟨e, _, hs⟩⟩ := step_cases ht
    · simp [hs] at hb
    · simp [hs] at hb
    · have hagain : { m with state := State.blocked }.step = m.step := step_withState ht rfl
      rw [hs] at hagain ⊢
      rw [hagain]
    · rw [hs, commit_eq] at hb
      by_cases he : e = .halt <;> simp [he] at hb

theorem Sincere.clearOutput (h : m.Sincere) : m.clearOutput.Sincere := by
  intro hb hin
  have hstep := step_undrain m.clearOutput m.output
  have hback : m.clearOutput.undrain m.output = m := by simp [undrain, Machine.clearOutput]
  rw [hback] at hstep
  rw [← h hb hin, hstep]

theorem Sincere.pushInput (h : m.Sincere) (w : List Cell) : (m.pushInput w).Sincere := by
  intro hb hin
  obtain ⟨hempty, rfl⟩ := List.append_eq_nil_iff.mp hin
  have hback : m.pushInput [] = m := by simp [Machine.pushInput]
  rw [hback]
  exact h hb hempty

theorem Became.unique (h : Became start received drained a) (h' : Became start received drained b)
    (ha : a.Sincere) (hb : b.Sincere) (hia : a.Idle) (hib : b.Idle) : a = b := by
  obtain ⟨x, hx, hax⟩ := h
  obtain ⟨y, hy, hby⟩ := h'
  have hxs : x.Stuck := hax.stuck ((ha.stuck hia).undrain drained)
  have hys : y.Stuck := hby.stuck ((hb.stuck hib).undrain drained)
  have hxy : y = x := hxs.eq_of_moves (hx.reach_stuck hy hys)
  subst hxy
  have hundrained : a.undrain drained = b.undrain drained := hax.eq_of_idle hby hia hib
  simp only [undrain, Machine.mk.injEq, Array.append_right_inj] at hundrained
  cases a
  cases b
  simpa using hundrained

end Machine

end Intcode
