import Intcode.Proofs.History
import Intcode.Proofs.Omission
set_option autoImplicit false

/-!
The queues lose nothing. What was queued as input and what calls have queued since is what `input`
instructions have stored and what is still queued, in this order; and likewise for output. Whether output
is drained or left where it is makes no difference to anything else.
-/
namespace Intcode

def Reply.isRefusal : Reply → Bool
  | .state (.error (.notRunning _)) => true
  | _ => false

def Call.isReset : Call → Bool
  | .reset => true
  | .restart => true
  | _ => false

def Call.isDrainOutput : Call → Bool
  | .drainOutput => true
  | _ => false

def Turn.accepted (t : Turn) : List Cell :=
  match t.call with
  | .pushInput values => values
  | .run input => if t.reply.isRefusal then [] else input
  | .runLimited input _ => if t.reply.isRefusal then [] else input
  | _ => []

def Turn.drained (t : Turn) : List Cell :=
  match t.reply with
  | .output values => values.toList
  | _ => []

/-- What an `input` instruction has stored: the value at its target afterwards. -/
def Execution.stored? (x : Execution) : Option Cell :=
  if x.fetched.instruction.opcode = .input then
    some (x.machine.step.2.mem.tape (x.machine.place x.fetched 0).toNat)
  else none

def Execution.emitted? (x : Execution) : Option Cell :=
  if x.fetched.instruction.opcode = .output then some (x.machine.argument x.fetched 0) else none

section Turns
variable (turns : List Turn)

def accepted : List Cell := turns.flatMap Turn.accepted

def consumed : List Cell := (executed turns).filterMap Execution.stored?

def produced : List Cell := (executed turns).filterMap Execution.emitted?

def drained : List Cell := turns.flatMap Turn.drained

end Turns

namespace Execution
variable {x : Execution}

theorem Valid.input_eq (h : x.Valid) :
    x.machine.input = x.stored?.toList ++ (x.machine.table x.fetched).input := by
  by_cases hop : x.fetched.instruction.opcode = .input
  · cases hin : x.machine.input with
    | nil => exact absurd hin (h.enabled.fed hop)
    | cons value rest =>
      have hstored : x.stored? = some value := by
        simp [stored?, hop, h.table, Machine.table, Machine.Table.written?, hin, ← Memory.store_eq_put,
          Memory.tape_store]
      simp [hstored, Machine.table, hop, hin]
  · simp [stored?, hop, Machine.table]

theorem output_append_emitted? (x : Execution) :
    x.machine.output.toList ++ x.emitted?.toList = (x.machine.table x.fetched).output.toList := by
  by_cases hop : x.fetched.instruction.opcode = .output <;> simp [emitted?, hop, Machine.table]

end Execution

namespace Machine

section Refusals
variable {m last after : Machine} {e : MachineError} {input : List Cell}

theorem isRefusal_of_metAt {pc : Cell} (h : e.MetAt pc) : (Reply.state (.error e)).isRefusal = false := by
  cases e with
  | notRunning state => cases h
  | _ => rfl

theorem isRefusal_of_executes {n : Nat} (ht : m.state.isTerminal = false) (hx : Executes n m last)
    (he : last.step.1 = .error e) : (Reply.state (.error e)).isRefusal = false :=
  isRefusal_of_metAt (step_error (hx.not_terminal ht) (Prod.ext he rfl : last.step = (.error e, _))).2

theorem isRefusal_runLimited (m : Machine) (input : List Cell) (budget : Count) :
    (Reply.state (m.runLimited input budget).1).isRefusal = m.state.isTerminal := by
  cases ht : m.state.isTerminal with
  | true => simp [runLimited, ht, Reply.isRefusal]
  | false =>
    cases hrun : (m.runLimited input budget).1 with
    | ok s => rfl
    | error e =>
      obtain ⟨n, last, _, hx, he, _⟩ := runLimited_error ht (Prod.ext hrun rfl)
      exact isRefusal_of_executes (m := m.pushInput input) ht hx he

theorem Runs.isRefusal {result : Except MachineError State} (h : m.Runs input result after) :
    (Reply.state result).isRefusal = m.state.isTerminal := by
  cases ht : m.state.isTerminal with
  | true =>
    obtain ⟨rfl, _⟩ := (runs_of_terminal ht).mp h
    rfl
  | false =>
    cases result with
    | ok s => rfl
    | error e =>
      obtain ⟨n, last, hx, he, _⟩ := runs_error ht h
      exact isRefusal_of_executes (m := m.pushInput input) ht hx he

end Refusals

section Turns
variable {m : Machine} {t : Turn}

/-- A refused run queues nothing; all other input that is given is queued. -/
theorem Takes.input_opened (h : m.Takes t) (hcall : t.call.isReset = false) :
    (m.opened t.call).input = m.input ++ t.accepted := by
  rcases t with ⟨call, reply, executed, after⟩
  obtain ⟨fuel, ha, _⟩ := h
  cases call with
  | run input =>
    obtain ⟨result, hrun, rfl⟩ := answers_run_iff.mp ⟨fuel, ha⟩
    simp [opened, Turn.accepted, hrun.isRefusal, pushInput]
  | runLimited input budget =>
    cases ha
    simp [opened, Turn.accepted, isRefusal_runLimited, pushInput]
  | reset | restart => cases hcall
  | _ => simp [opened, Turn.accepted, pushInput, clearOutput, clearTrace, setTrace]

theorem Takes.output_opened (h : m.Takes t) (hcall : t.call.isReset = false) :
    m.output.toList = t.drained ++ (m.opened t.call).output.toList := by
  rcases t with ⟨call, reply, executed, after⟩
  obtain ⟨fuel, ha, _⟩ := h
  cases call with
  | run input =>
    obtain ⟨_, _, rfl⟩ := answers_run_iff.mp ⟨fuel, ha⟩
    rfl
  | drainOutput =>
    cases ha
    exact (List.append_nil _).symm
  | reset | restart => cases hcall
  | _ =>
    cases ha
    rfl

theorem Takes.input (h : m.Takes t) (hcall : t.call.isReset = false) :
    m.input ++ t.accepted = t.executed.filterMap Execution.stored? ++ t.after.input := by
  have hbalance := h.trail.balance Machine.input (fun _ => []) (fun x => x.stored?.toList)
    (fun _ _ => rfl) fun x hx => (List.append_nil _).trans hx.input_eq
  rw [flatMap_nothing, List.append_nil] at hbalance
  rw [← h.input_opened hcall, List.filterMap_eq_flatMap_toList, hbalance]

theorem Takes.output (h : m.Takes t) (hcall : t.call.isReset = false) :
    m.output.toList ++ t.executed.filterMap Execution.emitted? = t.drained ++ t.after.output.toList := by
  have hbalance := h.trail.balance (·.output.toList) (fun x => x.emitted?.toList) (fun _ => [])
    (fun _ _ => rfl) fun x _ => x.output_append_emitted?
  rw [flatMap_nothing, List.nil_append] at hbalance
  rw [h.output_opened hcall, List.filterMap_eq_flatMap_toList, List.append_assoc, hbalance]

end Turns

section Conservation
variable {m : Machine} {turns : List Turn}

theorem History.input (h : m.History turns) (hcalls : ∀ t ∈ turns, t.call.isReset = false) :
    m.input ++ accepted turns = consumed turns ++ (m.latest turns).input := by
  have hbalance := h.balance Machine.input Turn.accepted
    (fun t => t.executed.filterMap Execution.stored?) fun m t hmem ht => ht.input (hcalls t hmem)
  rwa [← List.filterMap_flatMap] at hbalance

theorem History.output (h : m.History turns) (hcalls : ∀ t ∈ turns, t.call.isReset = false) :
    m.output.toList ++ produced turns = drained turns ++ (m.latest turns).output.toList := by
  have hbalance := h.balance (·.output.toList) (fun t => t.executed.filterMap Execution.emitted?)
    Turn.drained fun m t hmem ht => ht.output (hcalls t hmem)
  rwa [← List.filterMap_flatMap] at hbalance

theorem History.of_prefix {done : List Turn} (h : m.History turns) (hdone : done <+: turns) :
    m.History done := by
  obtain ⟨rest, rfl⟩ := hdone
  exact (history_append.mp h).1

end Conservation

theorem unnoticed_undrain (front : Array Cell) : Unnoticed (·.undrain front) where
  state _ := rfl
  step m := step_undrain m front
  pushInput _ _ := rfl

theorem spared_isDrainOutput : Spared Call.isDrainOutput fun front m => m.undrain front where
  spared front m call hcall := by
    cases call with
    | drainOutput =>
      refine ⟨.output m.output, m.clearOutput, front ++ m.output, ⟨0, rfl⟩, ?_⟩
      simp [undrain, clearOutput]
    | _ => cases hcall
  carried front m call hcall := by
    have h := unnoticed_undrain front
    cases call with
    | step => exact ⟨front, h.carried_step m⟩
    | run input => exact ⟨front, h.carried_run m input⟩
    | runLimited input budget => exact ⟨front, h.carried_runLimited m input budget⟩
    | pushInput values => exact ⟨front, h.carried_pushInput m values⟩
    | drainOutput => cases hcall
    | drainTrace | setTrace _ | assign _ => exact ⟨front, fun _ => rfl⟩
    -- What was to be handed over is thrown away with the rest.
    | reset | restart => exact ⟨#[], fun _ => by simp [ask?, undrain, reset, restart]⟩

/-- From any machine and for any calls that do not empty the queues, after every call: what was queued and
was accepted is what was stored and is queued still, and what was there and was put out is what was drained
and is there still. And the calls that drain can be left out, by which no reply changes and no machine but
for its output. -/
theorem queues_lossless (m : Machine) :
    (∀ calls events, m.Session calls events → ∃ turns, m.History turns ∧ turns.map Turn.call = calls ∧
      turns.map (fun t => (t.reply, t.after)) = events) ∧
    (∀ turns, m.History turns → (∀ t ∈ turns, t.call.isReset = false) → ∀ done, done <+: turns →
      m.input ++ accepted done = consumed done ++ (m.latest done).input ∧
      m.output.toList ++ produced done = drained done ++ (m.latest done).output.toList) ∧
    ∀ calls,
      ((∃ events, m.Session calls events) ↔
        ∃ plain, m.Session (calls.filter (!·.isDrainOutput)) plain) ∧
      ∀ events plain, m.Session calls events → m.Session (calls.filter (!·.isDrainOutput)) plain →
        List.Forall₂ (fun p e => p.1 = e.1 ∧ p.2.clearOutput = e.2.clearOutput) plain
          (kept Call.isDrainOutput calls events) ∧
        (m.ending plain).clearOutput = (m.ending events).clearOutput := by
  have hnone : m.undrain #[] = m := by simp [undrain]
  refine ⟨fun _ _ => Session.exists_history, ?_, fun calls => ⟨?_, ?_⟩⟩
  · intro turns h hcalls done hdone
    have hcalls' := fun t ht => hcalls t (hdone.subset ht)
    exact ⟨(h.of_prefix hdone).input hcalls', (h.of_prefix hdone).output hcalls'⟩
  · rw [spared_isDrainOutput.exists_session_iff #[], hnone]
  · intro events plain hs hplain
    obtain ⟨plain', front, hplain', hall, hlast⟩ := spared_isDrainOutput.session hs #[]
    rw [hnone] at hplain' hlast
    obtain rfl := hplain.unique hplain'
    refine ⟨hall.imp ?_, by rw [hlast]; rfl⟩
    rintro p e ⟨hreply, front, hmachine⟩
    exact ⟨hreply, by rw [hmachine]; rfl⟩

/-- Some input is stored, some is left when the machine halts, a run is refused with its input and a push
is not. -/
theorem queues_lossless_refused :
    let m := ofMemory #[] [4] ⟨#[3, 9, 4, 9, 3, 9, 99, 0, 0, 0], .strict, 10⟩
    ∃ turns, m.History turns ∧ turns.map Turn.call =
        [.step, .pushInput [7, 8], .runLimited [5] 1, .drainOutput, .runLimited [] 5, .runLimited [6] 3,
          .pushInput [2]] ∧
      accepted turns = [7, 8, 5, 2] ∧ consumed turns = [4, 7] ∧ (m.latest turns).input = [8, 5, 2] ∧
      produced turns = [4] ∧ drained turns = [4] ∧
      (m.input ++ accepted turns = consumed turns ++ (m.latest turns).input ∧
        m.output.toList ++ produced turns = drained turns ++ (m.latest turns).output.toList) := by
  intro m
  have h : m.History _ :=
    .cons (t := ⟨.step, _, _, _⟩) ⟨0, rfl, rfl⟩ <|
    .cons (t := ⟨.pushInput [7, 8], _, _, _⟩) ⟨0, rfl, rfl⟩ <|
    .cons (t := ⟨.runLimited [5] 1, _, _, _⟩) ⟨0, rfl, rfl⟩ <|
    .cons (t := ⟨.drainOutput, _, _, _⟩) ⟨0, rfl, rfl⟩ <|
    .cons (t := ⟨.runLimited [] 5, _, _, _⟩) ⟨0, rfl, rfl⟩ <|
    .cons (t := ⟨.runLimited [6] 3, _, _, _⟩) ⟨0, rfl, rfl⟩ <|
    .cons (t := ⟨.pushInput [2], _, _, _⟩) ⟨0, rfl, rfl⟩ (.nil _)
  refine ⟨_, h, rfl, by decide +kernel, by decide +kernel, by decide +kernel, by decide +kernel,
    by decide +kernel, ?_⟩
  exact (queues_lossless m).2.1 _ h (by decide) _ (List.prefix_refl _)

end Machine

end Intcode
