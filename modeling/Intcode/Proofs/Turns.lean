import Intcode.Console.Session
import Intcode.Proofs.Budget
import Intcode.Proofs.Queues
import Intcode.Proofs.Resumption
set_option autoImplicit false

/-!
One turn of a session. The machine runs as far as the step budget goes, or the fuel where there is none.
A turn that ends in a question has left the machine where input is missing, so the turn that would have
been taken with the input at hand is this one and then the next.
-/
namespace Intcode

theorem Step.eq_blocked_of_answer {out : Except MachineError Step}
    (h : Step.answer? out = some (.ok .blocked)) : out = .ok .blocked := by
  cases out with
  | error e => simp [answer?] at h
  | ok s => cases s <;> simp [answer?] at h ⊢

namespace Machine

def keeping (m : Machine) (output : Array Cell) (trace : Array TraceEntry) : Machine :=
  { m with output := output ++ m.output, trace := trace ++ m.trace }

theorem unnoticed_keeping (output : Array Cell) (trace : Array TraceEntry) :
    Unnoticed (·.keeping output trace) where
  state _ := rfl
  step m := by
    have hcommit : ∀ f e, (m.keeping output trace).commit f e = (m.commit f e).keeping output trace := by
      intro f e
      have hentry : (m.keeping output trace).traceEntry f = m.traceEntry f := rfl
      rw [commit_eq, commit_eq]
      simp only [recorded, hentry]
      cases hon : m.tracing <;> cases e <;> simp [keeping, apply, hon]
    exact step_carry (g := (·.keeping output trace)) rfl rfl (fun _ => rfl) hcommit fun _ => rfl
  pushInput _ _ := rfl

theorem keeping_drained (m : Machine) : m.clearTrace.clearOutput.keeping m.output m.trace = m := by
  simp [keeping, clearTrace, clearOutput]

section Starving
variable {m last after : Machine} {k : Nat}

theorem advance_pushInput_of_blocked (hx : Executes k m last) (hs : last.step = (.ok .blocked, after))
    (w : List Cell) {j : Nat} (hj : 0 < j) :
    advance (k + j) (m.pushInput w) = advance j (after.pushInput w) := by
  obtain ⟨ht, hafter⟩ := step_blocked (m := last) (by rw [hs])
  rw [hs] at hafter
  obtain rfl : after = { last with state := .blocked } := hafter
  have hstep : ({ last with state := .blocked }.pushInput w).step = (last.pushInput w).step :=
    step_withState (m := last.pushInput w) (s := .blocked) ht rfl
  obtain ⟨j, rfl⟩ : ∃ i, j = i + 1 := ⟨j - 1, by omega⟩
  rw [advance_add (j + 1) (hx.pushInput w)]
  unfold advance
  rw [hstep]

end Starving

end Machine

namespace Console.Session

open Machine

def room (o : Options) (fuel : Nat) (m : Machine) : Nat :=
  match o.maxSteps with
  | some most => (most - m.steps).toNat
  | none => fuel

/-- The budget is used up before the turn begins. -/
def Spent (o : Options) (m : Machine) : Prop := ∃ most, o.maxSteps = some most ∧ most ≤ m.steps

def settle (o : Options) (run : Stop × Machine) : Option (Except MachineError State × Machine) :=
  match o.maxSteps with
  | some _ => some (run.1.result?.getD (.ok run.2.state), run.2)
  | none => run.1.result?.map fun result => (result, run.2)

def closing (o : Options) (answer : Except MachineError State × Machine) : Turn where
  output := answer.2.output.toList
  notices := answer.2.trace.toList.map .trace ++ (follow o answer.2.regs.pc answer.1).1
  machine := answer.2.clearTrace.clearOutput
  next := (follow o answer.2.regs.pc answer.1).2

section Turns
variable {o : Options} {fuel : Nat} {m : Machine} {t : Turn}

theorem turn_of_spent (h : Spent o m) : turn o fuel m = some ⟨[], [.stepLimit], m, .finish false⟩ := by
  obtain ⟨most, hmost, hle⟩ := h
  simp [turn, hmost, hle]

theorem turn_eq_closing (h : ¬ Spent o m) : turn o fuel m = (proceed o fuel m).map (closing o) := by
  have hany : o.maxSteps.any (· ≤ m.steps) = false := by
    cases hmost : o.maxSteps with
    | none => rfl
    | some most =>
      simp only [Option.any_some, decide_eq_false_iff_not]
      intro hle
      exact h ⟨most, hmost, hle⟩
  unfold turn
  rw [hany]
  cases proceed o fuel m <;> rfl

theorem proceed_eq_settle (ht : m.state.isTerminal = false) :
    proceed o fuel m = settle o (advance (room o fuel m) m) := by
  unfold proceed settle room
  cases o.maxSteps with
  | some most => simp only [runLimited_eq ht, pushInput_nil]
  | none => simp only [run?, ht, Bool.false_eq_true, if_false, pushInput_nil]

/-- What was taken away before is missing from the output and the trace of a turn, and from nothing else. -/
theorem closing_keeping (output : Array Cell) (trace : Array TraceEntry)
    (answer : Except MachineError State × Machine) :
    closing o (answer.1, answer.2.keeping output trace) =
      { closing o answer with
        output := output.toList ++ (closing o answer).output
        notices := trace.toList.map .trace ++ (closing o answer).notices } := by
  simp [closing, keeping, clearTrace, clearOutput]

theorem settle_keeping (output : Array Cell) (trace : Array TraceEntry) (run : Stop × Machine) :
    settle o (run.1, run.2.keeping output trace) =
      (settle o run).map fun answer => (answer.1, answer.2.keeping output trace) := by
  unfold settle
  cases o.maxSteps with
  | some most => rfl
  | none => simp [Option.map_map, Function.comp_def]

theorem toNat_room {most : Count} (hmost : o.maxSteps = some most) (h : m.steps ≤ most) :
    room o fuel m = most.toNat - m.steps.toNat := by
  simp only [room, hmost]
  exact UInt64.toNat_sub_of_le _ _ h

theorem turn_steps_le {most : Count} (hmost : o.maxSteps = some most) (h : m.steps ≤ most)
    (ht : turn o fuel m = some t) : t.machine.steps ≤ most := by
  by_cases hspent : Spent o m
  · rw [turn_of_spent hspent] at ht
    cases ht
    exact h
  rw [turn_eq_closing hspent, Option.map_eq_some_iff] at ht
  obtain ⟨answer, hp, rfl⟩ := ht
  change answer.2.steps ≤ most
  cases hlive : m.state.isTerminal with
  | true =>
    simp only [proceed, hmost, runLimited, hlive, if_true, Option.some.injEq] at hp
    rwa [← hp]
  | false =>
    rw [proceed_eq_settle hlive] at hp
    simp only [settle, hmost, Option.some.injEq] at hp
    obtain ⟨k, hk, hpasses⟩ := exists_passes_advance (room o fuel m) m
    rw [toNat_room hmost h] at hk
    have hle := UInt64.le_iff_toNat_le.mp h
    have hlt := most.toNat_lt_size
    rw [← hp, UInt64.le_iff_toNat_le, hpasses.toNat_steps (by omega)]
    omega

theorem settle_of_result {run : Stop × Machine} {result : Except MachineError State}
    (h : run.1.result? = some result) : settle o run = some (result, run.2) := by
  unfold settle
  cases o.maxSteps <;> simp [h]

theorem settle_of_paused {after : Machine} {answer : Except MachineError State × Machine}
    (h : settle o (.paused, after) = some answer) :
    answer = (.ok after.state, after) ∧ ∃ most, o.maxSteps = some most := by
  unfold settle at h
  cases hmost : o.maxSteps with
  | none => simp [hmost, Stop.result?] at h
  | some most =>
    simp only [hmost, Stop.result?, Option.getD_none, Option.some.injEq] at h
    exact ⟨h.symm, most, rfl⟩

theorem lt_of_unspent {most : Count} (hmost : o.maxSteps = some most) (h : ¬ Spent o m) :
    m.steps < most :=
  UInt64.not_le.mp fun hle => h ⟨most, hmost, hle⟩

theorem room_pos {most : Count} (hmost : o.maxSteps = some most) (h : ¬ Spent o m) :
    0 < room o fuel m := by
  have hlt := lt_of_unspent hmost h
  rw [toNat_room hmost (UInt64.le_of_lt hlt)]
  exact Nat.sub_pos_of_lt hlt

/-- The machine took `k` steps and then starved, with room for one more step at least. -/
structure Starved (o : Options) (fuel : Nat) (m : Machine) (t : Turn) (k : Nat) (last after : Machine) :
    Prop where
  unspent : ¬ Spent o m
  runs : Executes k m last
  starves : last.step = (.ok .blocked, after)
  inside : k < room o fuel m
  output : t.output = after.output.toList
  notices : t.notices = after.trace.toList.map .trace
  machine : t.machine = after.clearTrace.clearOutput

theorem follow_eq_ask {pc : Cell} {result : Except MachineError State} :
    (follow o pc result).2 = .ask ↔ result = .ok .blocked ∧ o.interactive = true := by
  unfold follow
  split <;> simp_all

theorem exists_starved_of_ask (ht : turn o fuel m = some t) (hask : t.next = .ask) :
    ∃ k last after, Starved o fuel m t k last after := by
  by_cases hspent : Spent o m
  · rw [turn_of_spent hspent] at ht
    cases ht
    cases hask
  rw [turn_eq_closing hspent, Option.map_eq_some_iff] at ht
  obtain ⟨⟨result, after⟩, hp, rfl⟩ := ht
  obtain ⟨hresult, _⟩ := follow_eq_ask.mp hask
  obtain rfl : result = .ok .blocked := hresult
  have hlive : m.state.isTerminal = false := by
    cases hlive : m.state.isTerminal with
    | false => rfl
    | true =>
      unfold proceed at hp
      cases hmost : o.maxSteps <;> simp [hmost, runLimited, run?, hlive] at hp
  rw [proceed_eq_settle hlive] at hp
  obtain ⟨hpaused, hx⟩ | ⟨k, last, out, result, hk, hx, hs, ha, hr⟩ := advance_cases (room o fuel m) m
  · have hrun : advance (room o fuel m) m = (.paused, (advance (room o fuel m) m).2) := Prod.ext hpaused rfl
    rw [hrun] at hp
    obtain ⟨hanswer, most, hmost⟩ := settle_of_paused hp
    have hrunning := hx.state_running (room_pos hmost hspent)
    simp only [Prod.mk.injEq, Except.ok.injEq, hrunning] at hanswer
    cases hanswer.1
  · rw [settle_of_result hr, Option.some.injEq] at hp
    cases hp
    refine ⟨k, last, _, hspent, hx, ?_, hk, rfl, ?_, rfl⟩
    · rwa [Step.eq_blocked_of_answer ha] at hs
    · simp [closing, follow]

theorem room_pos_of_turn (hlive : m.state.isTerminal = false) (h : ¬ Spent o m)
    (ht : turn o fuel m = some t) : 0 < room o fuel m := by
  apply Nat.pos_of_ne_zero
  intro hzero
  rw [turn_eq_closing h, proceed_eq_settle hlive, hzero, Option.map_eq_some_iff] at ht
  obtain ⟨_, hp, _⟩ := ht
  obtain ⟨_, most, hmost⟩ := settle_of_paused hp
  have hpos : 0 < room o fuel m := room_pos hmost h
  omega

namespace Starved
variable {k : Nat} {last after : Machine} (h : Starved o fuel m t k last after) (w : List Cell)
include h

theorem live : m.state.isTerminal = false := by
  cases h.runs with
  | refl m => exact not_terminal_of_step_ok h.starves
  | next hs _ => exact not_terminal_of_step_ok hs

theorem live_after : (t.machine.pushInput w).state.isTerminal = false := by
  rw [h.machine]
  change after.state.isTerminal = false
  rw [step_state h.starves]
  rfl

theorem steps_after {most : Count} (hmost : o.maxSteps = some most) :
    (t.machine.pushInput w).steps.toNat = m.steps.toNat + k ∧ m.steps.toNat + k < most.toNat := by
  have hinside := h.inside
  rw [toNat_room hmost (UInt64.le_of_lt (lt_of_unspent hmost h.unspent))] at hinside
  have hlt := most.toNat_lt_size
  rw [h.machine]
  exact ⟨(Passes.starve h.runs h.starves).toNat_steps (by omega), by omega⟩

theorem unspent_after : ¬ Spent o (t.machine.pushInput w) := by
  rintro ⟨most, hmost, hle⟩
  obtain ⟨hsteps, hlt⟩ := h.steps_after w hmost
  rw [UInt64.le_iff_toNat_le] at hle
  omega

theorem room_eq (fuel' : Nat) :
    room o (k + fuel') (m.pushInput w) = k + room o fuel' (t.machine.pushInput w) := by
  cases hmost : o.maxSteps with
  | none => simp [room, hmost]
  | some most =>
    obtain ⟨hsteps, hlt⟩ := h.steps_after w hmost
    have hle : (m.pushInput w).steps ≤ most := UInt64.le_of_lt (lt_of_unspent hmost h.unspent)
    have hle' : (t.machine.pushInput w).steps ≤ most := UInt64.le_iff_toNat_le.mpr (by omega)
    rw [toNat_room hmost hle, toNat_room hmost hle', hsteps]
    change most.toNat - m.steps.toNat = _
    omega

/-- A turn whose machine starved, and a turn that goes on from there with new input, are one turn of the
machine that had the input from the start. -/
theorem turn_pushInput {fuel' : Nat} {t' : Turn} (ht : turn o fuel' (t.machine.pushInput w) = some t') :
    turn o (k + fuel') (m.pushInput w) =
      some { t' with output := t.output ++ t'.output, notices := t.notices ++ t'.notices } := by
  have hunspent : ¬ Spent o (m.pushInput w) := h.unspent
  have hlive : (m.pushInput w).state.isTerminal = false := h.live
  have hpos := room_pos_of_turn (h.live_after w) (h.unspent_after w) ht
  have hkept : after.pushInput w = (t.machine.pushInput w).keeping after.output after.trace := by
    rw [h.machine, ← (unnoticed_keeping _ _).pushInput, keeping_drained]
  rw [turn_eq_closing (h.unspent_after w), proceed_eq_settle (h.live_after w),
    Option.map_eq_some_iff] at ht
  obtain ⟨answer, hanswer, rfl⟩ := ht
  let j := room o fuel' (t.machine.pushInput w)
  calc turn o (k + fuel') (m.pushInput w)
      = (settle o (advance (k + j) (m.pushInput w))).map (closing o) := by
        rw [turn_eq_closing hunspent, proceed_eq_settle hlive, h.room_eq]
    _ = (settle o (advance j (after.pushInput w))).map (closing o) := by
        rw [advance_pushInput_of_blocked h.runs h.starves w hpos]
    _ = some (closing o (answer.1, answer.2.keeping after.output after.trace)) := by
        rw [hkept, (unnoticed_keeping _ _).advance, settle_keeping, hanswer]
        rfl
    _ = _ := by rw [closing_keeping, h.output, h.notices]

end Starved

end Turns

end Console.Session

end Intcode
