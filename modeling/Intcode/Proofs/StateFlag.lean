import Intcode.Proofs.MemorySize
import Intcode.Proofs.Queues
import Intcode.Proofs.TraceRecord
import Intcode.Proofs.Tracing
set_option autoImplicit false

/-!
The state flag is set after a step and left alone by everything else but a reset and a restart, and yet
it stays true: what it says of the instruction at the program counter is not changed by input that is
queued later, nor by output and traces that are taken away. A failed machine would fail in the same way
again.
-/
namespace Intcode

def Reply.failure? : Reply → Option MachineError
  | .step (.error e) => some e
  | .state (.error e) => some e
  | _ => none

def Call.isAssign : Call → Bool
  | .assign _ => true
  | _ => false

def counted (turns : List Turn) : Nat :=
  turns.foldl (fun n t => if t.call = .restart then 0 else n + t.executed.length) 0

namespace Machine

def Faces (m : Machine) (op : Opcode) : Prop :=
  ∃ (address : Nat) (i : Instruction), (address : Int) = m.regs.pc.toInt ∧ address < m.mem.size ∧
    decode (m.cellAt address) = .ok i ∧ i.opcode = op

def resumed (m : Machine) : Machine := { m with state := .running }

/-- The machine failed with `e` in one of the calls, and has been left as failed by all calls since. -/
def Broke (m : Machine) (turns : List Turn) (e : MachineError) : Prop :=
  ∃ before t later, turns = before ++ t :: later ∧ (m.latest before).state.isTerminal = false ∧
    t.reply.failure? = some e ∧ t.after.state = .errored ∧ ∀ u ∈ later, u.after.state = .errored

/-- What the flag says of the program counter is true. -/
structure Flagged (m : Machine) : Prop where
  ready : m.state = .ready → m.regs.pc = 0
  blocked : m.state = .blocked → m.Faces .input
  halted : m.state = .halted → m.Faces .halt

section Flagged
variable {m m' after : Machine} {f : Fetched} {t : Turn} {turns : List Turn}

theorem faces_of_fetch (h : m.fetch = .ok f) (hregs : m'.regs = m.regs) (hmem : m'.mem = m.mem) :
    m'.Faces f.instruction.opcode := by
  obtain ⟨hpc, hinside, hword, hdecode⟩ := fetch_eq_ok_iff.mp h
  refine ⟨f.pc, f.instruction, ?_, ?_, ?_, rfl⟩
  · rwa [hregs]
  · rwa [hmem]
  · rw [cellAt, hmem]
    rw [hword] at hdecode
    exact hdecode

theorem Flagged.of_eq (h : m.Flagged) (hstate : m'.state = m.state) (hregs : m'.regs = m.regs)
    (hmem : m'.mem = m.mem) : m'.Flagged := by
  obtain ⟨ready, blocked, halted⟩ := h
  unfold Faces cellAt at blocked halted
  rw [← hstate, ← hregs] at ready
  rw [← hstate, ← hregs, ← hmem] at blocked halted
  exact ⟨ready, blocked, halted⟩

theorem Flagged.step (h : m.Flagged) : m.step.2.Flagged := by
  cases ht : m.state.isTerminal with
  | true => rwa [step_of_terminal ht]
  | false =>
    obtain ⟨_, _, hs⟩ | ⟨f, hf, ⟨_, _, hs⟩ | ⟨he, hs⟩ | ⟨e, he, hs⟩⟩ := step_cases ht
    · rw [hs]
      exact ⟨nofun, nofun, nofun⟩
    · rw [hs]
      exact ⟨nofun, nofun, nofun⟩
    · rw [hs]
      obtain ⟨hop, _⟩ := effect_eq_none_iff.mp he
      exact ⟨nofun, fun _ => hop ▸ faces_of_fetch hf rfl rfl, nofun⟩
    · rw [hs]
      obtain ⟨_, _, hplanned⟩ := (effect_eq_some_iff (fetch_eq_ok_iff.mp hf).2.2.2).mp he
      have hhalt : e = .halt ↔ f.instruction.opcode = .halt := hplanned ▸ planned_eq_halt_iff
      have hstate : (m.commit f e).state = if e = .halt then .halted else .running := by rw [commit_eq]
      by_cases hop : e = .halt
      · subst hop
        refine ⟨by simp [hstate], by simp [hstate], fun _ => ?_⟩
        exact hhalt.mp rfl ▸ faces_of_fetch hf (by rw [commit_eq]; rfl) (by rw [commit_eq]; rfl)
      · exact ⟨by simp [hstate, hop], by simp [hstate, hop], by simp [hstate, hop]⟩

theorem Flagged.opened {call : Call} (h : m.Flagged) (hcall : call.isAssign = false) :
    (m.opened call).Flagged := by
  cases call with
  | assign regs => cases hcall
  | reset => exact ⟨fun _ => rfl, nofun, nofun⟩
  | restart => exact ⟨fun _ => rfl, nofun, nofun⟩
  | _ => exact h.of_eq rfl rfl rfl

theorem Takes.flagged (h : m.Takes t) (hcall : t.call.isAssign = false) (hm : m.Flagged) :
    t.after.Flagged :=
  (h.trail.always (fun _ hm => hm.step) (hm.opened hcall)).2

end Flagged

section Counting
variable {m after : Machine} {log : List Execution} {t : Turn} {turns : List Turn}

theorem Trail.halted (h : Trail m log after) (hafter : after.state = .halted) :
    m.state = .halted ∨ 0 < log.length := by
  induction h with
  | refl m => exact .inl hafter
  | @step m after log _ ih =>
    obtain ⟨hnone, s, hstep, hs⟩ | ⟨f, hsome, _⟩ := execution?_cases m
    · obtain hstate | hlog := ih hafter
      · rw [hstep] at hstate
        exact .inl (hs.mp hstate)
      · exact .inr (by simpa [hnone] using hlog)
    · exact .inr (by simp [hsome])

theorem opened_of_ne_restart (m : Machine) {call : Call} (h : call ≠ .restart) :
    (m.opened call).steps = m.steps ∧ ((m.opened call).state = .halted → m.state = .halted) := by
  cases call with
  | restart => exact absurd rfl h
  | reset => exact ⟨rfl, nofun⟩
  | _ => exact ⟨rfl, id⟩

theorem Takes.counted {n : Nat} (h : m.Takes t) (hsteps : m.steps = UInt64.ofNat n)
    (hhalted : m.state = .halted → 0 < n) :
    let n' := if t.call = .restart then 0 else n + t.executed.length
    t.after.steps = UInt64.ofNat n' ∧ (t.after.state = .halted → 0 < n') := by
  intro n'
  by_cases hcall : t.call = .restart
  · have hn' : n' = 0 := if_pos hcall
    have hafter : t.after = m.restart := by
      obtain ⟨fuel, ha, _⟩ := h
      rw [hcall] at ha
      exact (Prod.mk.inj (Option.some.inj ha)).2.symm
    rw [hafter, hn']
    exact ⟨rfl, nofun⟩
  · have hn' : n' = n + t.executed.length := if_neg hcall
    obtain ⟨hopened, hlive⟩ := opened_of_ne_restart m hcall
    have hthreads := h.trail.threads Machine.steps fun _ _ _ => rfl
    refine ⟨?_, ?_⟩
    · rw [(hthreads.steps fun x => h.trail.valid).1, hopened, hsteps, hn', UInt64.ofNat_add]
    · intro hafter
      obtain hstate | hlog := h.trail.halted hafter
      · have hn := hhalted (hlive hstate)
        omega
      · omega

end Counting

section Failures
variable {m last after : Machine} {e : MachineError} {call : Call} {reply : Reply} {t : Turn}

theorem Answers.state_of_terminal (h : m.Answers call reply after) (ht : m.state.isTerminal = true)
    (hcall : call.isReset = false) : after.state = m.state := by
  obtain ⟨fuel, ha⟩ := h
  cases call with
  | run input =>
    obtain ⟨result, hrun, rfl⟩ := answers_run_iff.mp ⟨fuel, ha⟩
    rw [((runs_of_terminal ht).mp hrun).2]
  | runLimited input budget =>
    cases ha
    simp [runLimited, ht]
  | step =>
    cases ha
    rw [step_of_terminal ht]
  | reset | restart => cases hcall
  | _ =>
    cases ha
    rfl

theorem Answers.state_of_reset (h : m.Answers call reply after) (hcall : call.isReset = true) :
    after.state = .ready := by
  obtain ⟨fuel, ha⟩ := h
  cases call with
  | reset | restart =>
    cases ha
    rfl
  | _ => cases hcall

theorem resumed_errored (m : Machine) : { m with state := .errored }.resumed = m.resumed := rfl

theorem step_resumed (ht : m.state.isTerminal = false) : m.resumed.step = m.step :=
  step_withState (m := m) (s := .running) ht rfl

theorem Unnoticed.step_eq {g : Machine → Machine} (h : Unnoticed g) (heq : g m = g after) :
    after.step.1 = m.step.1 := by
  have hm := congrArg Prod.fst (h.step m)
  have ha := congrArg Prod.fst (h.step after)
  rw [← hm, heq, ha]

/-- A failed machine that is not started over would still fail as it did. -/
theorem Answers.fails_still (h : m.Answers call reply after) (ht : m.state = .errored)
    (hassign : call.isAssign = false) (hreset : call.isReset = false)
    (he : m.resumed.step.1 = .error e) : after.resumed.step.1 = .error e := by
  have hterminal : m.state.isTerminal = true := by rw [ht]; rfl
  obtain ⟨fuel, ha⟩ := h
  cases call with
  | run input =>
    obtain ⟨result, hrun, rfl⟩ := answers_run_iff.mp ⟨fuel, ha⟩
    rwa [((runs_of_terminal hterminal).mp hrun).2]
  | runLimited input budget =>
    cases ha
    simpa [runLimited, hterminal] using he
  | step =>
    cases ha
    rwa [step_of_terminal hterminal]
  | pushInput values =>
    cases ha
    have hpush := step_pushInput (m := m.resumed) values (by simp [he])
    exact (congrArg Prod.fst hpush).trans he
  | drainOutput =>
    cases ha
    have hundrain := step_undrain m.clearOutput.resumed m.output
    have hback : m.clearOutput.resumed.undrain m.output = m.resumed := by
      simp [resumed, undrain, clearOutput]
    rw [hback] at hundrain
    exact (congrArg Prod.fst hundrain).symm.trans he
  | drainTrace =>
    cases ha
    have hsame : m.clearTrace.resumed.step.1 = m.resumed.step.1 := unnoticed_untraced.step_eq rfl
    exact hsame.trans he
  | setTrace on =>
    cases ha
    have hsame : (m.setTrace on).resumed.step.1 = m.resumed.step.1 := unnoticed_untraced.step_eq rfl
    exact hsame.trans he
  | assign regs => cases hassign
  | reset | restart => cases hreset

theorem fails_of_step {out : Except MachineError Step} (ht : last.state.isTerminal = false)
    (hs : last.step = (out, after)) (hafter : after.state = .errored) :
    ∃ e, out = .error e ∧ after.resumed.step.1 = .error e := by
  cases out with
  | ok s =>
    rw [step_state hs] at hafter
    cases s <;> cases hafter
  | error e =>
    refine ⟨e, rfl, ?_⟩
    rw [(step_error ht hs).1, resumed_errored, step_resumed ht, hs]

theorem fails_of_ended {n : Nat} {out : Except MachineError Step} {result : Except MachineError State}
    (ht : m.state.isTerminal = false) (hx : Executes n m last) (hs : last.step = (out, after))
    (ha : Step.answer? out = some result) (hafter : after.state = .errored) :
    ∃ e, result = .error e ∧ after.resumed.step.1 = .error e := by
  obtain ⟨e, rfl, he⟩ := fails_of_step (hx.not_terminal ht) hs hafter
  exact ⟨e, (Option.some.inj ha).symm, he⟩

theorem Answers.fails (h : m.Answers call reply after) (ht : m.state.isTerminal = false)
    (hafter : after.state = .errored) :
    ∃ e, reply.failure? = some e ∧ after.resumed.step.1 = .error e := by
  have hlive : m.state ≠ .errored := fun heq => by simp [heq, State.isTerminal] at ht
  obtain ⟨fuel, ha⟩ := h
  cases call with
  | run input =>
    obtain ⟨result, hrun, rfl⟩ := answers_run_iff.mp ⟨fuel, ha⟩
    obtain ⟨n, last, out, hx, hs, hanswer⟩ := finishes_iff.mp ((runs_iff ht).mp hrun)
    obtain ⟨e, rfl, he⟩ := fails_of_ended (m := m.pushInput input) ht hx hs hanswer hafter
    exact ⟨e, rfl, he⟩
  | runLimited input budget =>
    cases ha
    simp only [runLimited_eq_within ht] at hafter ⊢
    obtain ⟨hx, _⟩ | ⟨n, last, out, _, hx, hs, hanswer⟩ := within_cases budget.toNat (m.pushInput input)
    · have hlive' := hx.not_terminal (m := m.pushInput input) ht
      simp [hafter, State.isTerminal] at hlive'
    · obtain ⟨e, he, hresumed⟩ := fails_of_ended (m := m.pushInput input) ht hx hs hanswer hafter
      exact ⟨e, by rw [he]; rfl, hresumed⟩
  | step =>
    cases ha
    have hs : m.step = (m.step.1, m.step.2) := rfl
    obtain ⟨e, he, hresumed⟩ := fails_of_step ht hs hafter
    exact ⟨e, by rw [he]; rfl, hresumed⟩
  | reset | restart =>
    cases ha
    cases hafter
  | _ =>
    cases ha
    exact absurd hafter hlive

end Failures

section Histories
variable {m : Machine} {t : Turn} {turns : List Turn} {e : MachineError}

theorem latest_concat (m : Machine) (turns : List Turn) (t : Turn) : m.latest (turns ++ [t]) = t.after := by
  induction turns generalizing m with
  | nil => rfl
  | cons u turns ih => exact ih u.after

theorem Broke.concat (h : m.Broke turns e) (ht : t.after.state = .errored) : m.Broke (turns ++ [t]) e := by
  obtain ⟨before, u, later, rfl, hlive, hreply, hafter, hlater⟩ := h
  refine ⟨before, u, later ++ [t], by simp, hlive, hreply, hafter, ?_⟩
  intro v hv
  obtain hv | hv := List.mem_append.mp hv
  · exact hlater v hv
  · rwa [List.mem_singleton.mp hv]

/-- The flag is right about the machine after these calls, and about what has happened in them. -/
structure Told (m : Machine) (turns : List Turn) : Prop where
  flagged : (m.latest turns).Flagged
  steps : (m.latest turns).steps = UInt64.ofNat (counted turns)
  counted : (m.latest turns).state = .halted → 0 < counted turns
  broke : (m.latest turns).state = .errored →
    ∃ e, m.Broke turns e ∧ (m.latest turns).resumed.step.1 = .error e

theorem Told.concat (h : Told m turns) (ht : (m.latest turns).Takes t) (hcall : t.call.isAssign = false) :
    Told m (turns ++ [t]) := by
  have hanswers : (m.latest turns).Answers t.call t.reply t.after := ht.imp fun _ h => h.1
  have hcounted : Intcode.counted (turns ++ [t]) =
      if t.call = .restart then 0 else Intcode.counted turns + t.executed.length := by
    simp [Intcode.counted]
  obtain ⟨hsteps, hhalted⟩ := ht.counted h.steps h.counted
  rw [← hcounted] at hsteps hhalted
  refine ⟨?_, ?_, ?_, ?_⟩ <;> rw [latest_concat]
  · exact ht.flagged hcall h.flagged
  · exact hsteps
  · exact hhalted
  · intro hafter
    cases hterminal : (m.latest turns).state.isTerminal with
    | false =>
      obtain ⟨e, he, hresumed⟩ := hanswers.fails hterminal hafter
      exact ⟨e, ⟨turns, t, [], rfl, hterminal, he, hafter, by simp⟩, hresumed⟩
    | true =>
      have hreset : t.call.isReset = false := by
        cases hreset : t.call.isReset with
        | false => rfl
        | true => simp [hanswers.state_of_reset hreset] at hafter
      have hstate := (hanswers.state_of_terminal hterminal hreset).symm.trans hafter
      obtain ⟨e, hbroke, he⟩ := h.broke hstate
      exact ⟨e, hbroke.concat hafter, hanswers.fails_still hstate hcall hreset he⟩

theorem History.told (h : m.History turns) (hcalls : ∀ t ∈ turns, t.call.isAssign = false)
    (hm : Told m []) : Told m turns := by
  induction turns using List.reverseRecOn with
  | nil => exact hm
  | append_singleton turns t ih =>
    obtain ⟨hturns, hlast⟩ := history_append.mp h
    cases hlast with
    | cons ht _ =>
      exact (ih hturns fun u hu => hcalls u (List.mem_append_left _ hu)).concat ht (hcalls t (by simp))

theorem told_fresh (program : Array Cell) (input : List Cell) (config : Config) :
    Told (fresh program input config) [] :=
  ⟨⟨fun _ => rfl, nofun, nofun⟩, rfl, nofun, nofun⟩

end Histories

/-- However a machine was built and whatever was done to it, short of setting its registers, its flag is
right: a machine that is ready is at address 0, one that is blocked is at an input instruction and one that
has halted is at a halt, which is among the instructions it counts. One that has failed did so in a call
that came back with the error, has been failed since, and would fail with the same error again. And none
but a reset or a restart ever changes the flag of a machine that has halted or failed. -/
theorem state_truthful (program : Array Cell) :
    (∀ config m₀, Built program config m₀ →
      (∀ calls events, m₀.Session calls events → ∃ turns, m₀.History turns ∧
        turns.map Turn.call = calls ∧ turns.map (fun t => (t.reply, t.after)) = events) ∧
      ∀ turns, m₀.History turns → (∀ t ∈ turns, t.call.isAssign = false) →
        let m := m₀.latest turns
        (m.state = .ready → m.regs.pc = 0) ∧
        (m.state = .blocked → m.Faces .input) ∧
        (m.state = .halted → m.Faces .halt ∧
          (counted turns < UInt64.size → 1 ≤ m.steps ∧ m.steps.toNat = counted turns)) ∧
        (m.state = .errored → ∃ e, m₀.Broke turns e ∧ m.resumed.step.1 = .error e)) ∧
    ∀ (m : Machine) call reply after, m.Answers call reply after → m.state.isTerminal = true →
      call ≠ .reset → call ≠ .restart → after.state = m.state := by
  refine ⟨?_, ?_⟩
  · intro config m₀ hbuilt
    obtain ⟨input, hbuild⟩ := hbuilt.exists_build
    obtain ⟨_, _, rfl⟩ := build_eq_ok_iff.mp hbuild
    refine ⟨fun _ _ => Session.exists_history, ?_⟩
    intro turns h hcalls m
    have htold := h.told hcalls (told_fresh program input config)
    refine ⟨htold.flagged.ready, htold.flagged.blocked, ?_, htold.broke⟩
    intro hhalted
    refine ⟨htold.flagged.halted hhalted, ?_⟩
    intro hcount
    have hsteps : m.steps.toNat = counted turns := by
      rw [htold.steps, UInt64.toNat_ofNat']
      exact Nat.mod_eq_of_lt hcount
    have hpos := htold.counted hhalted
    refine ⟨UInt64.le_iff_toNat_le.mpr ?_, hsteps⟩
    rw [hsteps]
    exact hpos
  · intro m call reply after h ht hreset hrestart
    apply h.state_of_terminal ht
    cases call with
    | reset => exact absurd rfl hreset
    | restart => exact absurd rfl hrestart
    | _ => rfl

-- Said of any machine that holds the word, so that no row of cells is computed.
theorem step_undecodable {m : Machine} (ht : m.state.isTerminal = false) (hregs : m.regs = {})
    (hcell : m.mem.cells[0]? = some 42) :
    m.step = (.error (.decode 0 (.invalidOpcode 42)), { m with state := .errored }) := by
  have hpc : m.regs.pc.toUInt64.toNat = 0 := by rw [hregs]; rfl
  apply step_of_fetch_error ht
  unfold fetch
  rw [if_neg (by rw [hregs]; decide)]
  simp only [hpc, hcell]
  rfl

theorem history_undecodable {m : Machine} (ht : m.state.isTerminal = false) (hregs : m.regs = {})
    (hcell : m.mem.cells[0]? = some 42) :
    ∃ turns, m.History turns ∧
      turns.map Turn.call = [.step, .pushInput [5], .setTrace true, .runLimited [6] 1] ∧
      (m.latest turns).state = .errored ∧
      (m.latest turns).resumed.step.1 = .error (.decode 0 (.invalidOpcode 42)) := by
  have hstep := step_undecodable ht hregs hcell
  let m₁ : Machine := { m with state := .errored }
  let m₂ := (m₁.pushInput [5]).setTrace true
  have hfirst : m.Takes ⟨.step, .step (.error (.decode 0 (.invalidOpcode 42))), [], m₁⟩ :=
    ⟨0, by simp only [ask?, hstep, m₁], by simp [executionsOf, execution?, hstep]⟩
  have hrefused : m₂.Takes ⟨.runLimited [6] 1, .state (.error (.notRunning .errored)), [], m₂⟩ :=
    ⟨0, rfl, (executions_of_terminal (m := m₂.pushInput [6]) rfl _).symm⟩
  have hagain : m₂.resumed.step.1 = .error (.decode 0 (.invalidOpcode 42)) := by
    have hwould := step_undecodable (m := m₂.resumed) rfl hregs hcell
    rw [hwould]
  have hpush : m₁.Takes ⟨.pushInput [5], .done, [], m₁.pushInput [5]⟩ := ⟨0, rfl, rfl⟩
  have htrace : (m₁.pushInput [5]).Takes ⟨.setTrace true, .done, [], m₂⟩ := ⟨0, rfl, rfl⟩
  exact ⟨_, .cons hfirst (.cons hpush (.cons htrace (.cons hrefused (.nil _)))), rfl, rfl, hagain⟩

/-- The first word is no instruction. The failed machine is given input and is to be traced, and does not
run; it would fail as it did. -/
theorem state_truthful_undecodable :
    let m₀ := new #[42] []
    let e := MachineError.decode 0 (.invalidOpcode 42)
    ∃ turns, Built #[42] {} m₀ ∧ m₀.History turns ∧
      turns.map Turn.call = [.step, .pushInput [5], .setTrace true, .runLimited [6] 1] ∧
      (m₀.latest turns).state = .errored ∧ m₀.Broke turns e ∧
      (m₀.latest turns).resumed.step.1 = .error e := by
  intro m₀ e
  have hbuilt : Built #[42] {} m₀ := .plain [] (by decide)
  obtain ⟨turns, h, hcalls, hstate, hagain⟩ :=
    history_undecodable (m := m₀) rfl rfl (Array.getElem?_append_left (by decide))
  have hassign : ∀ t ∈ turns, t.call.isAssign = false := by
    have hall : ∀ call ∈ turns.map Turn.call, call.isAssign = false := by
      rw [hcalls]
      decide
    exact fun t ht => hall t.call (List.mem_map_of_mem ht)
  obtain ⟨_, _, _, hfailed⟩ := ((state_truthful #[42]).1 {} m₀ hbuilt).2 turns h hassign
  obtain ⟨e', hbroke, he'⟩ := hfailed hstate
  obtain rfl : e' = e := Except.error.inj (he'.symm.trans hagain)
  exact ⟨turns, hbuilt, h, hcalls, hstate, hbroke, hagain⟩

end Machine

end Intcode
