import Intcode.Proofs.Run
set_option autoImplicit false

/-!
The machine as its callers meet it: calls, what they give back, and whole sessions of them. Every call but
a run to the end gives an answer; a run to the end may go on for ever, and then the session has no more
events.
-/
namespace Intcode

inductive Call
  | step
  | run (input : List Cell)
  | runLimited (input : List Cell) (budget : Count)
  | pushInput (values : List Cell)
  | drainOutput
  | drainTrace
  | setTrace (on : Bool)
  | assign (regs : Registers)
  | reset
  | restart
  deriving DecidableEq, Repr

inductive Reply
  | done
  | step (outcome : Except MachineError Step)
  | state (outcome : Except MachineError State)
  | output (values : Array Cell)
  | trace (entries : Array TraceEntry)

def Reply.Met (bad : MachineError → Prop) : Reply → Prop
  | .step (.error e) => bad e
  | .state (.error e) => bad e
  | _ => False

theorem Reply.not_met {bad : MachineError → Prop} (h : ∀ e, ¬ bad e) (reply : Reply) : ¬ reply.Met bad := by
  intro hmet
  unfold Reply.Met at hmet
  split at hmet
  · exact h _ hmet
  · exact h _ hmet
  · exact hmet

namespace Machine

/-- The reply to a call and the machine after it. There is none if a run takes more than `fuel` steps. -/
def ask? (m : Machine) (fuel : Nat) : Call → Option (Reply × Machine)
  | .step => some (.step m.step.1, m.step.2)
  | .run input => (m.run? input fuel).map fun answer => (.state answer.1, answer.2)
  | .runLimited input budget =>
    some (.state (m.runLimited input budget).1, (m.runLimited input budget).2)
  | .pushInput values => some (.done, m.pushInput values)
  | .drainOutput => some (.output m.drainOutput.1, m.drainOutput.2)
  | .drainTrace => some (.trace m.drainTrace.1, m.drainTrace.2)
  | .setTrace on => some (.done, m.setTrace on)
  | .assign regs => some (.done, { m with regs := regs })
  | .reset => some (.done, m.reset)
  | .restart => some (.done, m.restart)

def Answers (m : Machine) (call : Call) (reply : Reply) (after : Machine) : Prop :=
  ∃ fuel, m.ask? fuel call = some (reply, after)

inductive Session : Machine → List Call → List (Reply × Machine) → Prop
  | nil (m : Machine) : Session m [] []
  | cons {m mid : Machine} {call : Call} {calls : List Call} {reply : Reply}
      {events : List (Reply × Machine)} :
      m.Answers call reply mid → Session mid calls events →
      Session m (call :: calls) ((reply, mid) :: events)

theorem Session.take {m : Machine} {calls : List Call} {events : List (Reply × Machine)}
    (h : m.Session calls events) (n : Nat) : m.Session (calls.take n) (events.take n) := by
  induction h generalizing n with
  | nil m => simpa using Session.nil m
  | cons ha _ ih =>
    cases n with
    | zero => exact .nil _
    | succ n => exact .cons ha (ih n)

inductive Reaches : Machine → Machine → Prop
  | refl (m : Machine) : Reaches m m
  | next {m mid after : Machine} {call : Call} {reply : Reply} :
      m.Answers call reply mid → Reaches mid after → Reaches m after

theorem answers_run_iff {m after : Machine} {input : List Cell} {reply : Reply} :
    m.Answers (.run input) reply after ↔ ∃ result, m.Runs input result after ∧ reply = .state result := by
  simp only [Answers, ask?, Option.map_eq_some_iff, Runs]
  constructor
  · rintro ⟨fuel, ⟨result, final⟩, hrun, heq⟩
    cases heq
    exact ⟨result, ⟨fuel, hrun⟩, rfl⟩
  · rintro ⟨result, ⟨fuel, hrun⟩, rfl⟩
    exact ⟨fuel, (result, after), hrun, rfl⟩

theorem Answers.unique {m after after' : Machine} {call : Call} {reply reply' : Reply}
    (h : m.Answers call reply after) (h' : m.Answers call reply' after') :
    reply = reply' ∧ after = after' := by
  cases call with
  | run input =>
    obtain ⟨result, hrun, rfl⟩ := answers_run_iff.mp h
    obtain ⟨result', hrun', rfl⟩ := answers_run_iff.mp h'
    obtain ⟨rfl, rfl⟩ := runs_unique hrun hrun'
    exact ⟨rfl, rfl⟩
  | _ =>
    obtain ⟨_, h⟩ := h
    obtain ⟨_, h'⟩ := h'
    cases h
    cases h'
    exact ⟨rfl, rfl⟩

theorem Session.unique {m : Machine} {calls : List Call} {events events' : List (Reply × Machine)}
    (h : m.Session calls events) (h' : m.Session calls events') : events = events' := by
  induction h generalizing events' with
  | nil m =>
    cases h'
    rfl
  | cons ha _ ih =>
    cases h' with
    | cons ha' hrest' =>
      obtain ⟨rfl, rfl⟩ := ha.unique ha'
      rw [ih hrest']

def fresh (program : Array Cell) (input : List Cell) (config : Config) : Machine where
  regs := {}
  mem :=
    { cells := Memory.image program (max config.minMemory Memory.leastSize).toNat
      policy := config.policy
      limit := max config.maxMemory (UInt64.ofNat program.size) }
  state := .ready
  steps := 0
  input := input
  output := #[]
  program := program
  tracing := config.trace
  trace := #[]

theorem build_eq (program : Array Cell) (input : List Cell) (config : Config) :
    build program input config =
      let least := max config.minMemory Memory.leastSize
      if config.maxMemory < least then .error (.invalidConfig least config.maxMemory)
      else if Memory.ceiling < max program.size least.toNat then
        .error (.memory (.allocationFailed (max program.size least.toNat)))
      else .ok (fresh program input config) := by
  simp only [build, Memory.build]
  split
  · rfl
  · by_cases h : Memory.ceiling < max program.size (max config.minMemory Memory.leastSize).toNat
    · simp only [h, if_true]
    · simp only [h, if_false]
      rfl

theorem build_eq_ok_iff {program : Array Cell} {input : List Cell} {config : Config} {m : Machine} :
    build program input config = .ok m ↔
      max config.minMemory Memory.leastSize ≤ config.maxMemory ∧
      max program.size (max config.minMemory Memory.leastSize).toNat ≤ Memory.ceiling ∧
      m = fresh program input config := by
  rw [build_eq]
  simp only
  split
  · rename_i h
    simp only [reduceCtorEq, false_iff]
    intro hm
    exact absurd h (UInt64.not_lt.mpr hm.1)
  · rename_i h
    split
    · rename_i hc
      simp only [reduceCtorEq, false_iff]
      intro hm
      omega
    · rename_i hc
      simp only [Except.ok.injEq, UInt64.not_lt.mp h, Nat.not_lt.mp hc, true_and]
      exact eq_comm

/-- A property that a caller cannot break. -/
structure Invariant (P : Machine → Prop) : Prop where
  step : ∀ {m}, P m → P m.step.2
  pushInput : ∀ {m} values, P m → P (m.pushInput values)
  clearOutput : ∀ {m}, P m → P m.clearOutput
  clearTrace : ∀ {m}, P m → P m.clearTrace
  setTrace : ∀ {m} on, P m → P (m.setTrace on)
  assign : ∀ {m} regs, P m → P { m with regs := regs }
  reset : ∀ {m}, P m → P m.reset
  restart : ∀ {m}, P m → P m.restart

variable {P : Machine → Prop} {m after : Machine}

theorem Invariant.advance (h : Invariant P) (n : Nat) (hm : P m) : P (advance n m).2 := by
  induction n generalizing m with
  | zero => exact hm
  | succ n ih =>
    have hnext := h.step hm
    unfold Machine.advance
    rcases hs : m.step with ⟨out, mid⟩
    rw [hs] at hnext
    cases out with
    | error e => exact hnext
    | ok s =>
      cases s with
      | executed i => exact ih hnext
      | blocked => exact hnext
      | halted => exact hnext

theorem Invariant.answers (h : Invariant P) {call : Call} {reply : Reply}
    (ha : m.Answers call reply after) (hm : P m) : P after := by
  obtain ⟨fuel, ha⟩ := ha
  cases call with
  | run input =>
    simp only [ask?, run?, Option.map_eq_some_iff] at ha
    obtain ⟨⟨result, final⟩, hrun, heq⟩ := ha
    cases heq
    split at hrun
    · cases hrun
      exact hm
    · simp only [Option.map_eq_some_iff] at hrun
      obtain ⟨_, _, heq⟩ := hrun
      cases heq
      exact h.advance fuel (h.pushInput input hm)
  | runLimited input budget =>
    simp only [ask?, runLimited, Option.some.injEq, Prod.mk.injEq] at ha
    rw [← ha.2]
    split
    · exact hm
    · exact h.advance budget.toNat (h.pushInput input hm)
  | step =>
    cases ha
    exact h.step hm
  | pushInput values =>
    cases ha
    exact h.pushInput values hm
  | drainOutput =>
    cases ha
    exact h.clearOutput hm
  | drainTrace =>
    cases ha
    exact h.clearTrace hm
  | setTrace on =>
    cases ha
    exact h.setTrace on hm
  | assign regs =>
    cases ha
    exact h.assign regs hm
  | reset =>
    cases ha
    exact h.reset hm
  | restart =>
    cases ha
    exact h.restart hm

theorem Invariant.reaches (h : Invariant P) (hr : Reaches m after) (hm : P m) : P after := by
  induction hr with
  | refl m => exact hm
  | next ha _ ih => exact ih (h.answers ha hm)

end Machine

end Intcode
