import Intcode.Proofs.Calls
import Mathlib.Data.List.Forall2
set_option autoImplicit false

/-!
Two machines in lockstep. A relation between machines that every step and every other call keeps is kept by
whole sessions, and a run ends for one of the two exactly when it ends for the other. The replies are the
same but for errors that may stand for one another (`alike`); and nothing is promised any more once the
second machine has met an error that ends the comparison (`bad`).
-/
namespace Intcode

inductive Reply.Stands (alike : MachineError → MachineError → Prop) : Reply → Reply → Prop
  | step {e' e : MachineError} : alike e' e → Stands alike (.step (.error e')) (.step (.error e))
  | state {e' e : MachineError} : alike e' e → Stands alike (.state (.error e')) (.state (.error e))

namespace Machine

/-- What two machines make of one call: the same reply, or errors that may stand for one another, after
which both are out of action. -/
def Matched (rel : Machine → Machine → Prop) (alike : MachineError → MachineError → Prop)
    (b a : Reply × Machine) : Prop :=
  rel b.2 a.2 ∧
    (b.1 = a.1 ∨ b.1.Stands alike a.1 ∧ b.2.state = .errored ∧ a.2.state = .errored)

section Outcomes
variable {β γ : Type} (rel : Machine → Machine → Prop) (alike : MachineError → MachineError → Prop)
  (bad : MachineError → Prop)

def Together (fail : MachineError → β) (b a : β × Machine) : Prop :=
  (∃ e, a.1 = fail e ∧ bad e) ∨ rel b.2 a.2 ∧ (b.1 = a.1 ∨
    ∃ e' e, b.1 = fail e' ∧ a.1 = fail e ∧ alike e' e ∧ b.2.state = .errored ∧ a.2.state = .errored)

variable {rel alike bad}

theorem Together.map {fail : MachineError → β} {fail' : MachineError → γ} {b a : β × Machine}
    (g : Machine → β → γ) (hg : ∀ {b a}, rel b a → g b = g a) (hfail : ∀ m e, g m (fail e) = fail' e)
    (h : Together rel alike bad fail b a) :
    Together rel alike bad fail' (g b.2 b.1, b.2) (g a.2 a.1, a.2) := by
  obtain ⟨e, ha, hbad⟩ | ⟨hrel, hsame | ⟨e', e, hb, ha, hrest⟩⟩ := h
  · exact .inl ⟨e, by simp [ha, hfail], hbad⟩
  · exact .inr ⟨hrel, .inl (by simp [hsame, hg hrel])⟩
  · exact .inr ⟨hrel, .inr ⟨e', e, by simp [hb, hfail], by simp [ha, hfail], hrest⟩⟩

theorem Together.step {b a : Except MachineError Step × Machine}
    (h : Together rel alike bad .error b a) :
    (Reply.step a.1).Met bad ∨ Matched rel alike (.step b.1, b.2) (.step a.1, a.2) := by
  obtain ⟨e, ha, hbad⟩ | ⟨hrel, hsame | ⟨e', e, hb, ha, halike, hstates⟩⟩ := h
  · exact .inl (by rw [ha]; exact hbad)
  · exact .inr ⟨hrel, .inl (by rw [hsame])⟩
  · exact .inr ⟨hrel, .inr ⟨by rw [hb, ha]; exact .step halike, hstates⟩⟩

theorem Together.state {b a : Except MachineError State × Machine}
    (h : Together rel alike bad .error b a) :
    (Reply.state a.1).Met bad ∨ Matched rel alike (.state b.1, b.2) (.state a.1, a.2) := by
  obtain ⟨e, ha, hbad⟩ | ⟨hrel, hsame | ⟨e', e, hb, ha, halike, hstates⟩⟩ := h
  · exact .inl (by rw [ha]; exact hbad)
  · exact .inr ⟨hrel, .inl (by rw [hsame])⟩
  · exact .inr ⟨hrel, .inr ⟨by rw [hb, ha]; exact .state halike, hstates⟩⟩

end Outcomes

/-- A relation that every call keeps, as long as no `bad` error is met. -/
structure Lockstep (rel : Machine → Machine → Prop) (alike : MachineError → MachineError → Prop)
    (bad : MachineError → Prop) : Prop where
  state : ∀ {b a}, rel b a → b.state = a.state
  output : ∀ {b a}, rel b a → b.output = a.output
  trace : ∀ {b a}, rel b a → b.trace = a.trace
  step : ∀ {b a}, rel b a → a.state.isTerminal = false → Together rel alike bad .error b.step a.step
  pushInput : ∀ {b a} values, rel b a → rel (b.pushInput values) (a.pushInput values)
  clearOutput : ∀ {b a}, rel b a → rel b.clearOutput a.clearOutput
  clearTrace : ∀ {b a}, rel b a → rel b.clearTrace a.clearTrace
  setTrace : ∀ {b a} on, rel b a → rel (b.setTrace on) (a.setTrace on)
  assign : ∀ {b a} regs, rel b a → rel { b with regs := regs } { a with regs := regs }
  reset : ∀ {b a}, rel b a → rel b.reset a.reset
  restart : ∀ {b a}, rel b a → rel b.restart a.restart

namespace Lockstep
variable {rel : Machine → Machine → Prop} {alike : MachineError → MachineError → Prop}
  {bad : MachineError → Prop} {b a : Machine}

theorem advance (h : Lockstep rel alike bad) (n : Nat) (hab : rel b a)
    (ht : a.state.isTerminal = false) :
    Together rel alike bad .failed (advance n b) (advance n a) := by
  induction n generalizing b a with
  | zero => exact .inr ⟨hab, .inl rfl⟩
  | succ n ih =>
    have hstep := h.step hab ht
    unfold Machine.advance
    rcases hb : b.step with ⟨outb, b'⟩
    rcases ha : a.step with ⟨outa, a'⟩
    rw [hb, ha] at hstep
    obtain ⟨e, rfl, hbad⟩ | ⟨hrel, rfl | ⟨e', e, rfl, rfl, hrest⟩⟩ := hstep
    · exact .inl ⟨e, rfl, hbad⟩
    · cases outb with
      | error e => exact .inr ⟨hrel, .inl rfl⟩
      | ok s =>
        cases s with
        | executed i =>
          have ht' : a'.state.isTerminal = false := by
            rw [step_state ha]
            rfl
          exact ih hrel ht'
        | blocked => exact .inr ⟨hrel, .inl rfl⟩
        | halted => exact .inr ⟨hrel, .inl rfl⟩
    · exact .inr ⟨hrel, .inr ⟨e', e, rfl, rfl, hrest⟩⟩

theorem runLimited (h : Lockstep rel alike bad) (hab : rel b a) (input : List Cell) (budget : Count) :
    Together rel alike bad .error (b.runLimited input budget) (a.runLimited input budget) := by
  have hstate := h.state hab
  cases ht : a.state.isTerminal with
  | true =>
    simp only [Machine.runLimited, hstate, ht, if_true]
    exact .inr ⟨hab, .inl rfl⟩
  | false =>
    have hadvance := h.advance budget.toNat (h.pushInput input hab) ht
    rw [runLimited_eq ht, runLimited_eq (hstate ▸ ht)]
    exact hadvance.map (fun m stop => stop.result?.getD (.ok m.state))
      (fun hrel => by rw [h.state hrel]) (fun _ _ => rfl)

theorem run? (h : Lockstep rel alike bad) (hab : rel b a) (input : List Cell) (fuel : Nat) :
    (b.run? input fuel = none ∧ a.run? input fuel = none) ∨
    (∃ e after, a.run? input fuel = some (.error e, after) ∧ bad e) ∨
    ∃ eb ea, b.run? input fuel = some eb ∧ a.run? input fuel = some ea ∧
      Together rel alike bad .error eb ea := by
  have hstate := h.state hab
  cases ht : a.state.isTerminal with
  | true =>
    simp only [Machine.run?, hstate, ht, if_true]
    exact .inr (.inr ⟨_, _, rfl, rfl, .inr ⟨hab, .inl rfl⟩⟩)
  | false =>
    simp only [Machine.run?, hstate, ht, Bool.false_eq_true, if_false]
    obtain ⟨e, ha, hbad⟩ | ⟨hrel, hsame | ⟨e', e, hb, ha, hrest⟩⟩ :=
      h.advance fuel (h.pushInput input hab) ht
    · exact .inr (.inl ⟨e, _, by rw [ha]; rfl, hbad⟩)
    · rw [hsame]
      cases hr : (Machine.advance fuel (a.pushInput input)).1.result? with
      | none => exact .inl ⟨rfl, rfl⟩
      | some result => exact .inr (.inr ⟨_, _, rfl, rfl, .inr ⟨hrel, .inl rfl⟩⟩)
    · rw [hb, ha]
      exact .inr (.inr ⟨_, _, rfl, rfl, .inr ⟨hrel, .inr ⟨e', e, rfl, rfl, hrest⟩⟩⟩)

theorem ask? (h : Lockstep rel alike bad) (hab : rel b a) (fuel : Nat) (call : Call) :
    (b.ask? fuel call = none ∧ a.ask? fuel call = none) ∨
    (∃ ea, a.ask? fuel call = some ea ∧ ea.1.Met bad) ∨
    ∃ eb ea, b.ask? fuel call = some eb ∧ a.ask? fuel call = some ea ∧ Matched rel alike eb ea := by
  cases call with
  | step =>
    have hstate := h.state hab
    cases ht : a.state.isTerminal with
    | true =>
      have hb := step_of_terminal (m := b) (hstate ▸ ht)
      rw [hstate] at hb
      refine .inr (.inr ⟨_, _, rfl, rfl, ?_⟩)
      rw [hb, step_of_terminal ht]
      exact ⟨hab, .inl rfl⟩
    | false =>
      obtain hmet | hmatched := (h.step hab ht).step
      · exact .inr (.inl ⟨_, rfl, hmet⟩)
      · exact .inr (.inr ⟨_, _, rfl, rfl, hmatched⟩)
  | run input =>
    simp only [Machine.ask?]
    obtain ⟨hb, ha⟩ | ⟨e, after, ha, hbad⟩ | ⟨eb, ea, hb, ha, htogether⟩ := h.run? hab input fuel
    · exact .inl ⟨by rw [hb]; rfl, by rw [ha]; rfl⟩
    · exact .inr (.inl ⟨(.state (.error e), after), by rw [ha]; rfl, hbad⟩)
    · rw [hb, ha]
      obtain hmet | hmatched := htogether.state
      · exact .inr (.inl ⟨_, rfl, hmet⟩)
      · exact .inr (.inr ⟨_, _, rfl, rfl, hmatched⟩)
  | runLimited input budget =>
    obtain hmet | hmatched := (h.runLimited hab input budget).state
    · exact .inr (.inl ⟨_, rfl, hmet⟩)
    · exact .inr (.inr ⟨_, _, rfl, rfl, hmatched⟩)
  | pushInput values => exact .inr (.inr ⟨_, _, rfl, rfl, h.pushInput values hab, .inl rfl⟩)
  | drainOutput =>
    refine .inr (.inr ⟨_, _, rfl, rfl, h.clearOutput hab, .inl ?_⟩)
    exact congrArg Reply.output (h.output hab)
  | drainTrace =>
    refine .inr (.inr ⟨_, _, rfl, rfl, h.clearTrace hab, .inl ?_⟩)
    exact congrArg Reply.trace (h.trace hab)
  | setTrace on => exact .inr (.inr ⟨_, _, rfl, rfl, h.setTrace on hab, .inl rfl⟩)
  | assign regs => exact .inr (.inr ⟨_, _, rfl, rfl, h.assign regs hab, .inl rfl⟩)
  | reset => exact .inr (.inr ⟨_, _, rfl, rfl, h.reset hab, .inl rfl⟩)
  | restart => exact .inr (.inr ⟨_, _, rfl, rfl, h.restart hab, .inl rfl⟩)

variable {calls : List Call} {events : List (Reply × Machine)}

theorem session (h : Lockstep rel alike bad) (hab : rel b a) (hs : a.Session calls events)
    (hgood : ∀ event ∈ events, ¬ event.1.Met bad) :
    ∃ events', b.Session calls events' ∧ List.Forall₂ (Matched rel alike) events' events := by
  induction hs generalizing b with
  | nil m => exact ⟨[], .nil b, .nil⟩
  | @cons m mid call calls reply events ha _ ih =>
    obtain ⟨fuel, ha⟩ := ha
    obtain ⟨_, hnone⟩ | ⟨ea, hsome, hmet⟩ | ⟨eb, ea, hb, hsome, hmatched⟩ := h.ask? hab fuel call
    · simp [ha] at hnone
    · rw [ha] at hsome
      cases hsome
      exact absurd hmet (hgood _ (by simp))
    · rw [ha] at hsome
      cases hsome
      obtain ⟨events', hs', hall⟩ := ih hmatched.1 (fun event he => hgood event (by simp [he]))
      exact ⟨eb :: events', .cons ⟨fuel, hb⟩ hs', .cons hmatched hall⟩

theorem session_back (h : Lockstep rel alike bad) (hab : rel b a) (hs : b.Session calls events) :
    (∃ events', a.Session calls events' ∧ List.Forall₂ (Matched rel alike) events events') ∨
    ∃ done events', done <+: calls ∧ a.Session done events' ∧ ∃ event ∈ events', event.1.Met bad := by
  induction hs generalizing a with
  | nil m => exact .inl ⟨[], .nil a, .nil⟩
  | @cons m mid call calls reply events hb _ ih =>
    obtain ⟨fuel, hb⟩ := hb
    obtain ⟨hnone, _⟩ | ⟨ea, ha, hmet⟩ | ⟨eb, ea, hsome, ha, hmatched⟩ := h.ask? hab fuel call
    · simp [hb] at hnone
    -- The second machine's session ends with this call, whatever the first one does later.
    · refine .inr ⟨[call], [ea], ?_, .cons ⟨fuel, ha⟩ (.nil _), ea, by simp, hmet⟩
      exact ⟨calls, rfl⟩
    · rw [hb] at hsome
      cases hsome
      obtain ⟨events', hs', hall⟩ | ⟨done, events', hdone, hs', event, hmem, hmet⟩ := ih hmatched.1
      · exact .inl ⟨ea :: events', .cons ⟨fuel, ha⟩ hs', .cons hmatched hall⟩
      · refine .inr ⟨call :: done, ea :: events', ?_, .cons ⟨fuel, ha⟩ hs', event, ?_, hmet⟩
        · exact List.cons_prefix_cons.mpr ⟨rfl, hdone⟩
        · exact List.mem_cons_of_mem _ hmem

end Lockstep

end Machine

end Intcode
