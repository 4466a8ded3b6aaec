import Intcode.Proofs.Calls
import Intcode.Proofs.Failure
import Intcode.Proofs.InstructionTable
import Mathlib.Data.List.Chain
set_option autoImplicit false

/-!
Histories: the calls of a session together with the instructions that were executed for them. Every call
is a change made to the machine before it moves, which may be none, and then some steps. So a law about
histories comes down to what such a change does and what one instruction does. Three kinds of law are
carried from there to whole histories here: properties that hold throughout (`History.always`), stocks
that are added to and taken from (`History.balance`), and quantities that go on after each instruction
where the one before has left them (`History.threads`).
-/
namespace Intcode

structure Execution where
  machine : Machine
  fetched : Fetched

/-- The instruction could be executed, and the step has carried it out as the table says. -/
structure Execution.Valid (x : Execution) : Prop where
  live : x.machine.state.isTerminal = false
  enabled : x.machine.Enabled x.fetched
  table : x.machine.step.2 = x.machine.table x.fetched

namespace Machine

/-- The instruction that a step executes. There is none if the step starves, fails or is refused. -/
def execution? (m : Machine) : Option Execution :=
  match m.step.1, m.fetch with
  | .ok (.executed _), .ok f => some ⟨m, f⟩
  | .ok .halted, .ok f => some ⟨m, f⟩
  | _, _ => none

/-- A step executes the instruction at the program counter, as the table has it, or changes nothing but the
state, and a machine is not halted by that nor set going again. -/
theorem execution?_cases (m : Machine) :
    (m.execution? = none ∧ ∃ s, m.step.2 = { m with state := s } ∧ (s = .halted ↔ m.state = .halted)) ∨
    ∃ f, m.execution? = some ⟨m, f⟩ ∧ Execution.Valid ⟨m, f⟩ := by
  cases ht : m.state.isTerminal with
  | true =>
    have hs := step_of_terminal ht
    exact .inl ⟨by simp [execution?, hs], m.state, by rw [hs], Iff.rfl⟩
  | false =>
    have hlive : m.state ≠ .halted := fun h => by simp [h, State.isTerminal] at ht
    obtain ⟨e, _, hs⟩ | ⟨f, hf, ⟨e, _, hs⟩ | ⟨_, hs⟩ | ⟨e, he, _⟩⟩ := step_cases ht
    · exact .inl ⟨by simp [execution?, hs], .errored, by rw [hs], by simp [hlive]⟩
    · exact .inl ⟨by simp [execution?, hs], .errored, by rw [hs], by simp [hlive]⟩
    · exact .inl ⟨by simp [execution?, hs], .blocked, by rw [hs], by simp [hlive]⟩
    · obtain ⟨hfed, hacc, _⟩ := (effect_eq_some_iff (fetch_eq_ok_iff.mp hf).2.2.2).mp he
      have hen := enabled_iff.mpr ⟨hf, hfed, hacc⟩
      have hstep := step_of_enabled ht hen
      refine .inr ⟨f, ?_, ht, hen, by rw [hstep]⟩
      by_cases hop : f.instruction.opcode = .halt <;> simp [execution?, hstep, hf, hop]

def executions : Nat → Machine → List Execution
  | 0, _ => []
  | n + 1, m => m.execution?.toList ++ match m.step with
    | (.ok (.executed _), mid) => executions n mid
    | _ => []

inductive Trail : Machine → List Execution → Machine → Prop
  | refl (m : Machine) : Trail m [] m
  | step {m after : Machine} {log : List Execution} :
      Trail m.step.2 log after → Trail m (m.execution?.toList ++ log) after

theorem trail_advance (n : Nat) (m : Machine) : Trail m (executions n m) (advance n m).2 := by
  induction n generalizing m with
  | zero => exact .refl m
  | succ n ih =>
    have hstep : ∀ {log after}, Trail m.step.2 log after → Trail m (m.execution?.toList ++ log) after :=
      .step
    unfold executions advance
    rcases hs : m.step with ⟨out, mid⟩
    rw [hs] at hstep
    cases out with
    | error e => exact hstep (.refl mid)
    | ok s =>
      cases s with
      | executed i => exact hstep (ih mid)
      | blocked => exact hstep (.refl mid)
      | halted => exact hstep (.refl mid)

theorem executions_of_terminal {m : Machine} (h : m.state.isTerminal = true) (n : Nat) :
    executions n m = [] := by
  cases n with
  | zero => rfl
  | succ n => simp [executions, execution?, step_of_terminal h]

def executionsOf (m : Machine) (fuel : Nat) : Call → List Execution
  | .step => m.execution?.toList
  | .run input => executions fuel (m.pushInput input)
  | .runLimited input budget => executions budget.toNat (m.pushInput input)
  | _ => []

end Machine

structure Turn where
  call : Call
  reply : Reply
  executed : List Execution
  after : Machine

namespace Machine

def Takes (m : Machine) (t : Turn) : Prop :=
  ∃ fuel, m.ask? fuel t.call = some (t.reply, t.after) ∧ t.executed = m.executionsOf fuel t.call

inductive History : Machine → List Turn → Prop
  | nil (m : Machine) : History m []
  | cons {m : Machine} {t : Turn} {turns : List Turn} :
      m.Takes t → History t.after turns → History m (t :: turns)

def latest : Machine → List Turn → Machine
  | m, [] => m
  | _, t :: turns => latest t.after turns

section History
variable {m : Machine} {t : Turn} {turns before later : List Turn}

theorem history_append :
    m.History (before ++ later) ↔ m.History before ∧ (m.latest before).History later := by
  induction before generalizing m with
  | nil => exact ⟨fun h => ⟨.nil m, h⟩, fun h => h.2⟩
  | cons t before ih =>
    constructor
    · intro h
      cases h with
      | cons ht h =>
        obtain ⟨hbefore, hlater⟩ := ih.mp h
        exact ⟨.cons ht hbefore, hlater⟩
    · rintro ⟨h, hlater⟩
      cases h with
      | cons ht hbefore => exact .cons ht (ih.mpr ⟨hbefore, hlater⟩)

theorem Session.exists_history {calls : List Call} {events : List (Reply × Machine)}
    (h : m.Session calls events) : ∃ turns, m.History turns ∧ turns.map Turn.call = calls ∧
      turns.map (fun t => (t.reply, t.after)) = events := by
  induction h with
  | nil m => exact ⟨[], .nil m, rfl, rfl⟩
  | @cons m mid call calls reply events ha _ ih =>
    obtain ⟨fuel, ha⟩ := ha
    obtain ⟨turns, hturns, rfl, rfl⟩ := ih
    exact ⟨⟨call, reply, m.executionsOf fuel call, mid⟩ :: turns, .cons ⟨fuel, ha, rfl⟩ hturns, rfl, rfl⟩

/-- The machine as a call makes it before the first step. One that cannot run queues no input. -/
def opened (m : Machine) : Call → Machine
  | .step => m
  | .run input => m.pushInput (if m.state.isTerminal then [] else input)
  | .runLimited input _ => m.pushInput (if m.state.isTerminal then [] else input)
  | .pushInput values => m.pushInput values
  | .drainOutput => m.clearOutput
  | .drainTrace => m.clearTrace
  | .setTrace on => m.setTrace on
  | .assign regs => { m with regs := regs }
  | .reset => m.reset
  | .restart => m.restart

theorem Takes.trail (h : m.Takes t) : Trail (m.opened t.call) t.executed t.after := by
  rcases t with ⟨call, reply, executed, after⟩
  obtain ⟨fuel, ha, hexecuted⟩ := h
  dsimp only at ha hexecuted
  subst hexecuted
  cases call with
  | step =>
    cases ha
    simpa [executionsOf, opened] using Trail.step (.refl m.step.2)
  | run input =>
    simp only [ask?, run?, Option.map_eq_some_iff] at ha
    obtain ⟨⟨result, final⟩, hrun, heq⟩ := ha
    cases heq
    cases ht : m.state.isTerminal with
    | true =>
      simp only [ht, if_true, Option.some.injEq, Prod.mk.injEq] at hrun
      obtain ⟨_, rfl⟩ := hrun
      simp only [opened, ht, if_true, executionsOf, pushInput_nil]
      rw [executions_of_terminal (m := m.pushInput input) ht]
      exact .refl m
    | false =>
      simp only [ht, Bool.false_eq_true, if_false, Option.map_eq_some_iff, Prod.mk.injEq] at hrun
      obtain ⟨_, _, _, rfl⟩ := hrun
      simp only [opened, ht, Bool.false_eq_true, if_false]
      exact trail_advance fuel (m.pushInput input)
  | runLimited input budget =>
    simp only [ask?, Option.some.injEq, Prod.mk.injEq] at ha
    obtain ⟨_, rfl⟩ := ha
    cases ht : m.state.isTerminal with
    | true =>
      simp only [opened, runLimited, ht, if_true, executionsOf, pushInput_nil]
      rw [executions_of_terminal (m := m.pushInput input) ht]
      exact .refl m
    | false =>
      simp only [opened, runLimited_eq ht, ht, Bool.false_eq_true, if_false]
      exact trail_advance budget.toNat (m.pushInput input)
  | pushInput _ | drainOutput | drainTrace | setTrace _ | assign _ | reset | restart =>
    cases ha
    exact .refl _

end History

end Machine

def executed (turns : List Turn) : List Execution := turns.flatMap Turn.executed

namespace Machine

section Valid
variable {m after : Machine} {t : Turn} {turns : List Turn} {log : List Execution} {x : Execution}

theorem Trail.valid (h : Trail m log after) (hx : x ∈ log) : x.Valid := by
  induction h with
  | refl m => cases hx
  | @step m after log _ ih =>
    obtain ⟨hnone, _⟩ | ⟨f, hsome, hvalid⟩ := execution?_cases m
    · exact ih (by simpa [hnone] using hx)
    · simp only [hsome, Option.toList_some, List.singleton_append, List.mem_cons] at hx
      obtain rfl | hx := hx
      · exact hvalid
      · exact ih hx

theorem History.valid (h : m.History turns) (hx : x ∈ executed turns) : x.Valid := by
  induction h with
  | nil m => cases hx
  | cons ht _ ih =>
    simp only [executed, List.flatMap_cons, List.mem_append] at hx
    obtain hx | hx := hx
    · exact ht.trail.valid hx
    · exact ih hx

end Valid

section Always
variable {P : Machine → Prop} {m after : Machine} {turns : List Turn} {log : List Execution}

theorem Trail.always (h : Trail m log after) (hstep : ∀ m, P m → P m.step.2) (hm : P m) :
    (∀ x ∈ log, P x.machine) ∧ P after := by
  induction h with
  | refl m => exact ⟨by simp, hm⟩
  | @step m after log _ ih =>
    obtain ⟨hlog, hafter⟩ := ih (hstep m hm)
    refine ⟨?_, hafter⟩
    obtain ⟨hnone, _⟩ | ⟨f, hsome, _⟩ := execution?_cases m
    · simpa [hnone] using hlog
    · simpa [hsome] using ⟨hm, hlog⟩

theorem History.always (h : m.History turns) (hstep : ∀ m, P m → P m.step.2)
    (hopened : ∀ m, ∀ t ∈ turns, P m → P (m.opened t.call)) (hm : P m) :
    ∀ x ∈ executed turns, P x.machine := by
  induction h with
  | nil m => simp [executed]
  | @cons m t turns ht _ ih =>
    obtain ⟨hfirst, hafter⟩ := ht.trail.always hstep (hopened m t (by simp) hm)
    have hrest := ih (fun m t hmem => hopened m t (List.mem_cons_of_mem _ hmem)) hafter
    simp only [executed, List.flatMap_cons, List.forall_mem_append]
    exact ⟨hfirst, hrest⟩

end Always

section Balance
variable {α : Type} {m after : Machine}

theorem flatMap_nothing {β : Type} (l : List β) : l.flatMap (fun _ => ([] : List α)) = [] :=
  List.flatMap_eq_nil_iff.mpr fun _ _ => rfl

theorem balance_trans {a b c ins ins' outs outs' : List α} (h : a ++ ins = outs ++ b)
    (h' : b ++ ins' = outs' ++ c) : a ++ (ins ++ ins') = outs ++ outs' ++ c := by
  rw [← List.append_assoc, h, List.append_assoc, h', List.append_assoc]

theorem Trail.balance {log : List Execution} (h : Trail m log after) (stock : Machine → List α)
    (ins outs : Execution → List α) (hstate : ∀ m s, stock { m with state := s } = stock m)
    (hexecution : ∀ x : Execution, x.Valid →
      stock x.machine ++ ins x = outs x ++ stock (x.machine.table x.fetched)) :
    stock m ++ log.flatMap ins = log.flatMap outs ++ stock after := by
  induction h with
  | refl m => simp
  | @step m after log _ ih =>
    obtain ⟨hnone, s, hstep, _⟩ | ⟨f, hsome, hvalid⟩ := execution?_cases m
    · rw [hstep, hstate] at ih
      simpa [hnone] using ih
    · rw [hvalid.table] at ih
      simpa [hsome] using balance_trans (hexecution ⟨m, f⟩ hvalid) ih

theorem History.balance {turns : List Turn} (h : m.History turns) (stock : Machine → List α)
    (ins outs : Turn → List α)
    (hturn : ∀ m, ∀ t ∈ turns, m.Takes t → stock m ++ ins t = outs t ++ stock t.after) :
    stock m ++ turns.flatMap ins = turns.flatMap outs ++ stock (m.latest turns) := by
  induction h with
  | nil m => simp [latest]
  | @cons m t turns ht _ ih =>
    have hrest := ih fun m t hmem => hturn m t (List.mem_cons_of_mem _ hmem)
    simpa [latest] using balance_trans (hturn m t (by simp) ht) hrest

end Balance

/-- A quantity begins as `a`, each instruction finds it as the one before has left it, and in the end it
is `b`. -/
inductive Threads {α : Type} (p : Machine → α) : α → List Execution → α → Prop
  | nil (a : α) : Threads p a [] a
  | cons {x : Execution} {log : List Execution} {a b : α} :
      p x.machine = a → Threads p (p x.machine.step.2) log b → Threads p a (x :: log) b

section Threads
variable {α : Type} {p : Machine → α} {a b c : α} {log log' : List Execution} {m after : Machine}

theorem Threads.append (h : Threads p a log b) (h' : Threads p b log' c) : Threads p a (log ++ log') c := by
  induction h with
  | nil a => exact h'
  | cons hx _ ih => exact .cons hx (ih h')

theorem Threads.isChain (h : Threads p a log b) (hvalid : ∀ x ∈ log, x.Valid) :
    log.IsChain fun x y => x.Valid ∧ y.Valid ∧ p y.machine = p x.machine.step.2 := by
  induction h with
  | nil a => exact .nil
  | @cons x log a b _ h ih =>
    rw [List.forall_mem_cons] at hvalid
    have hrest := ih hvalid.2
    cases h with
    | nil => exact .singleton x
    | cons hy _ => exact .cons_cons ⟨hvalid.1, hvalid.2 _ (by simp), hy⟩ hrest

theorem Trail.threads (h : Trail m log after) (p : Machine → α)
    (hidle : ∀ m s, (s = .halted ↔ m.state = .halted) → p { m with state := s } = p m) :
    Threads p (p m) log (p after) := by
  induction h with
  | refl m => exact .nil _
  | @step m after log _ ih =>
    obtain ⟨hnone, s, hstep, hs⟩ | ⟨f, hsome, _⟩ := execution?_cases m
    · rw [hstep, hidle m s hs] at ih
      simpa [hnone] using ih
    · rw [hsome]
      exact .cons (x := ⟨m, f⟩) rfl ih

theorem History.threads {turns : List Turn} (h : m.History turns) (p : Machine → α)
    (hidle : ∀ m s, (s = .halted ↔ m.state = .halted) → p { m with state := s } = p m)
    (hopened : ∀ m, ∀ t ∈ turns, p (m.opened t.call) = p m) :
    Threads p (p m) (executed turns) (p (m.latest turns)) := by
  induction h with
  | nil m => exact .nil _
  | @cons m t turns ht _ ih =>
    have hfirst := ht.trail.threads p hidle
    rw [hopened m t (by simp)] at hfirst
    exact hfirst.append (ih fun m t hmem => hopened m t (List.mem_cons_of_mem _ hmem))

end Threads

end Machine

end Intcode
