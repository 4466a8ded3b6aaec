import Intcode.Proofs.Observation
import Intcode.Proofs.Operands
import Mathlib.Data.ENat.Lattice
set_option autoImplicit false

/-!
Where a run of the debugger stops. The machine by itself has a course of steps, and on it a first place at
which a run has to stop: behind the first step that does not let the machine go on, or at the first
breakpoint, not counting the one that the run starts from. A run followed by beats takes one step for each
beat, and one more to leave a breakpoint, until it has come to that place, and none after; at a breakpoint
it takes one more beat to notice.
-/
namespace Intcode

namespace Machine

def stepped (m : Machine) : Nat → Machine
  | 0 => m
  | n + 1 => (m.stepped n).step.2

end Machine

namespace Debugger

/-- How many steps a run takes at once: one, if it has to leave a breakpoint. -/
def leaving (d : Debugger) : Nat := if d.pc ∈ d.breakpoints then 1 else 0

def EndsAt (d : Debugger) (k : Nat) : Prop := ∃ i, k = i + 1 ∧ goesOn (d.machine.stepped i).step.1 = false

def ArrivesAt (d : Debugger) (k : Nat) : Prop :=
  d.leaving ≤ k ∧ (d.machine.stepped k).regs.pc ∈ d.breakpoints

def StopsAt (d : Debugger) (k : Nat) : Prop := d.EndsAt k ∨ d.ArrivesAt k

/-- The least number of steps after which a run has to stop, if there is one. -/
noncomputable def firstStop (d : Debugger) : ℕ∞ := ⨅ (k : Nat) (_ : d.StopsAt k), (k : ℕ∞)

variable {d d' : Debugger} {n j k : Nat}

theorem le_firstStop_iff : (j : ℕ∞) ≤ d.firstStop ↔ ∀ k < j, ¬ d.StopsAt k := by
  simp only [firstStop, le_iInf_iff, Nat.cast_le]
  constructor
  · intro h k hk hstops
    exact absurd (h k hstops) (Nat.not_le.mpr hk)
  · intro h k hstops
    by_contra hk
    exact h k (Nat.lt_of_not_le hk) hstops

theorem firstStop_le (h : d.StopsAt k) : d.firstStop ≤ k := iInf₂_le k h

theorem firstStop_eq (hstops : d.StopsAt k) (hbefore : ∀ i < k, ¬ d.StopsAt i) : d.firstStop = k :=
  le_antisymm (firstStop_le hstops) (le_firstStop_iff.mpr hbefore)

/-- What has become of `d` with a run and `n` beats, when its machine has taken `j` steps. -/
structure Ran (d : Debugger) (n j : Nat) (d' : Debugger) : Prop where
  steps_le : j ≤ d.leaving + n
  shows : d'.Shows ((d.machine.stepped j).undrain d.log)
  breakpoints : d'.breakpoints = d.breakpoints
  before : ∀ k < j, ¬ d.StopsAt k
  rest : d'.running = true ∧ j = d.leaving + n ∧ ¬ d.EndsAt j ∨
    d'.running = false ∧ (d.EndsAt j ∨ d.ArrivesAt j ∧ j < d.leaving + n)

theorem isTerminal_stepped (hlive : d.machine.state.isTerminal = false) (h : ¬ d.EndsAt j) :
    (d.machine.stepped j).state.isTerminal = false := by
  cases j with
  | zero => exact hlive
  | succ i =>
    have hon : goesOn (d.machine.stepped i).step.1 = true := by
      by_contra hoff
      exact h ⟨i, rfl, by simpa using hoff⟩
    rw [Machine.stepped, state_of_goesOn hon]
    rfl

theorem Ran.step {started : Debugger} (hlive : d.machine.state.isTerminal = false)
    (hshows : started.Shows ((d.machine.stepped j).undrain d.log))
    (hbreakpoints : started.breakpoints = d.breakpoints) (hrunning : started.running = true)
    (hbefore : ∀ k < j, ¬ d.StopsAt k) (hstop : ¬ d.StopsAt j) (hj : j + 1 = d.leaving + n) :
    d.Ran n (j + 1) started.step ∧ started.attempt = [.step] := by
  have hends : ¬ d.EndsAt j := fun h => hstop (.inl h)
  have ht : started.machine.state.isTerminal = false := by
    rw [hshows.machine]
    exact isTerminal_stepped hlive hends
  refine ⟨?_, by simp [attempt, ht]⟩
  have hnext := hshows.step_of_live ht
  have hout : started.machine.step.1 = (d.machine.stepped j).step.1 := by
    have hsame := congrArg Prod.fst hshows.machine_step
    rw [Machine.step_undrain] at hsame
    exact hsame.symm
  rw [Machine.step_undrain] at hnext
  obtain ⟨status, hstep⟩ := step_of_live ht
  refine ⟨Nat.le_of_eq hj, hnext, ?_, ?_, ?_⟩
  · rw [hstep]
    exact hbreakpoints
  · intro k hk
    obtain rfl | hk := Nat.lt_succ_iff_lt_or_eq.mp hk |>.symm
    · exact hstop
    · exact hbefore k hk
  · have hflag : started.step.running = goesOn (d.machine.stepped j).step.1 := by
      rw [hstep, ← hout]
      simp [hrunning]
    cases hon : goesOn (d.machine.stepped j).step.1 with
    | true =>
      refine .inl ⟨hflag.trans hon, hj, ?_⟩
      rintro ⟨i, hi, hoff⟩
      obtain rfl := Nat.succ.inj hi
      simp [hon] at hoff
    | false => exact .inr ⟨hflag.trans hon, .inl ⟨j, rfl, hon⟩⟩

theorem ran_run (hlive : d.machine.state.isTerminal = false) (hquiet : d.machine.output = #[]) :
    ∃ j, d.Ran 0 j d.run ∧ d.calls .run = List.replicate j .step := by
  have hshows : { d with running := true, status := "Running..." }.Shows (d.machine.undrain d.log) := by
    refine ⟨?_, ?_⟩
    · simp [Machine.undrain, Machine.clearOutput, ← hquiet]
    · simp [Machine.undrain, hquiet]
  simp only [calls]
  obtain ⟨hb, hrun⟩ | ⟨hb, hrun⟩ := run_cases d
  · have hleaving : d.leaving = 1 := if_pos hb
    have hstop : ¬ d.StopsAt 0 := by
      rintro (⟨i, hi, _⟩ | ⟨hle, _⟩)
      · simp at hi
      · simp [hleaving] at hle
    obtain ⟨hran, hattempt⟩ := Ran.step (n := 0) (j := 0) hlive hshows rfl rfl (by simp) hstop (by simp [hleaving])
    rw [if_pos hb, hrun]
    exact ⟨1, hran, hattempt⟩
  · have hleaving : d.leaving = 0 := if_neg hb
    rw [if_neg hb, hrun]
    refine ⟨0, ⟨Nat.zero_le _, hshows, rfl, by simp, .inl ⟨rfl, by simp [hleaving], ?_⟩⟩, rfl⟩
    rintro ⟨i, hi, _⟩
    simp at hi

theorem Ran.tick (h : d.Ran n j d') (hlive : d.machine.state.isTerminal = false) :
    ∃ i, d.Ran (n + 1) (j + i) d'.tick ∧ d'.calls .tick = List.replicate i .step := by
  simp only [calls]
  obtain ⟨hr, hj, hends⟩ | ⟨hr, hstopped⟩ := h.rest
  · have ht : d'.machine.state.isTerminal = false := by
      rw [h.shows.machine]
      exact isTerminal_stepped hlive hends
    have hpc : d'.pc = (d.machine.stepped j).regs.pc := by
      rw [pc, h.shows.machine]
      rfl
    obtain ⟨hoff, _⟩ | ⟨_, hstop, status, htick⟩ | ⟨_, _, hb, htick⟩ := tick_cases d'
    · simp [hr] at hoff
    · have hb : d'.pc ∈ d'.breakpoints := by
        obtain hdone | hb := hstop
        · simp [ht] at hdone
        · exact hb
      have harrives : d.ArrivesAt j := ⟨by omega, by rwa [← hpc, ← h.breakpoints]⟩
      rw [if_neg (by simp [hb]), htick]
      exact ⟨0, ⟨by omega, ⟨h.shows.machine, h.shows.log⟩, h.breakpoints, h.before,
        .inr ⟨rfl, .inr ⟨harrives, by omega⟩⟩⟩, rfl⟩
    · have hstop : ¬ d.StopsAt j := by
        rintro (hend | ⟨_, harrived⟩)
        · exact hends hend
        · rw [hpc, h.breakpoints] at hb
          exact hb harrived
      obtain ⟨hran, hattempt⟩ := Ran.step hlive h.shows h.breakpoints hr h.before hstop (n := n + 1) (by omega)
      rw [if_pos ⟨hr, hb⟩, htick]
      exact ⟨1, hran, hattempt⟩
  · have htick : d'.tick = d' := by simp [Debugger.tick, hr]
    rw [if_neg (by simp [hr]), htick]
    refine ⟨0, ⟨by have := h.steps_le; omega, h.shows, h.breakpoints, h.before, .inr ⟨hr, ?_⟩⟩, rfl⟩
    obtain hend | ⟨harrives, hlt⟩ := hstopped
    · exact .inl hend
    · exact .inr ⟨harrives, by omega⟩

theorem ran_performed (hlive : d.machine.state.isTerminal = false) (hquiet : d.machine.output = #[])
    (n : Nat) : ∃ j, d.Ran n j (d.performed (.run :: List.replicate n .tick)) ∧
      d.callsOf (.run :: List.replicate n .tick) = List.replicate j .step := by
  induction n with
  | zero =>
    obtain ⟨j, hran, hcalls⟩ := ran_run hlive hquiet
    exact ⟨j, hran, by simp [callsOf, hcalls]⟩
  | succ n ih =>
    obtain ⟨j, hran, hcalls⟩ := ih
    obtain ⟨i, hnext, hmore⟩ := hran.tick hlive
    have hops : Operation.run :: List.replicate (n + 1) .tick =
        (.run :: List.replicate n .tick) ++ [.tick] := by
      rw [List.replicate_succ', List.cons_append]
    refine ⟨j + i, ?_, ?_⟩
    · rw [hops, performed, List.foldl_append]
      exact hnext
    · rw [hops, callsOf_append, hcalls, List.replicate_add]
      simp [callsOf, hmore]

theorem Ran.steps_eq (h : d.Ran n j d') : (j : ℕ∞) = min ((d.leaving + n : Nat) : ℕ∞) d.firstStop := by
  apply le_antisymm
  · exact le_min (Nat.cast_le.mpr h.steps_le) (le_firstStop_iff.mpr h.before)
  · obtain ⟨_, hj, _⟩ | ⟨_, hstopped⟩ := h.rest
    · rw [hj]
      exact min_le_left _ _
    · have hstop : d.StopsAt j := hstopped.imp id And.left
      exact (min_le_right _ _).trans (firstStop_le hstop)

theorem Ran.running_eq_false_iff (h : d.Ran n j d') : d'.running = false ↔
    (∃ k : Nat, d.firstStop = k ∧ k ≤ d.leaving + n ∧ d.EndsAt k) ∨
      ∃ k : Nat, d.firstStop = k ∧ d.ArrivesAt k ∧ k - d.leaving + 1 ≤ n := by
  obtain ⟨hr, hj, hends⟩ | ⟨hr, hstopped⟩ := h.rest
  · have hle : ∀ k : Nat, d.firstStop = k → j ≤ k := by
      intro k hk
      have hfirst := le_firstStop_iff.mpr h.before
      rw [hk] at hfirst
      exact Nat.cast_le.mp hfirst
    simp only [hr, Bool.true_eq_false, false_iff]
    rintro (⟨k, hk, hkn, hend⟩ | ⟨k, hk, ⟨hleaving, _⟩, hkn⟩)
    · obtain rfl : k = j := Nat.le_antisymm (by omega) (hle k hk)
      exact hends hend
    · have := hle k hk
      omega
  · have hfirst : d.firstStop = j := firstStop_eq (hstopped.imp id And.left) h.before
    simp only [hr, true_iff]
    obtain hend | ⟨harrives, hlt⟩ := hstopped
    · exact .inl ⟨j, hfirst, h.steps_le, hend⟩
    · exact .inr ⟨j, hfirst, harrives, by have := harrives.1; omega⟩

/-- A run with `n` beats attempts as many steps as there are up to the first stop, but one for each beat and
for leaving a breakpoint at most. It leaves the machine as that many steps of its own leave it, with its
output in the log; no step is attempted at a breakpoint but the one that leaves it. The debugger is not
running any more exactly if the last of these steps did not let the machine go on, or if there was a beat
left to notice the breakpoint. -/
theorem run_stops_at_breakpoints (d : Debugger) (n : Nat) (hlive : d.machine.state.isTerminal = false)
    (hquiet : d.machine.output = #[]) :
    ∃ j : Nat, (j : ℕ∞) = min ((d.leaving + n : Nat) : ℕ∞) d.firstStop ∧
      d.callsOf (.run :: List.replicate n .tick) = List.replicate j .step ∧
      (d.performed (.run :: List.replicate n .tick)).machine = (d.machine.stepped j).clearOutput ∧
      (d.performed (.run :: List.replicate n .tick)).log = d.log ++ (d.machine.stepped j).output ∧
      (∀ i < j, (d.machine.stepped i).regs.pc ∈ d.breakpoints → i = 0 ∧ d.leaving = 1) ∧
      ((d.performed (.run :: List.replicate n .tick)).running = false ↔
        (∃ k : Nat, d.firstStop = k ∧ k ≤ d.leaving + n ∧ d.EndsAt k) ∨
        ∃ k : Nat, d.firstStop = k ∧ d.ArrivesAt k ∧ k - d.leaving + 1 ≤ n) := by
  obtain ⟨j, hran, hcalls⟩ := ran_performed hlive hquiet n
  refine ⟨j, hran.steps_eq, hcalls, hran.shows.machine, hran.shows.log, ?_, hran.running_eq_false_iff⟩
  intro i hi hb
  have hearly : ¬ d.leaving ≤ i := fun hle => hran.before i hi (.inr ⟨hle, hb⟩)
  have hleaving : d.leaving ≤ 1 := by
    unfold leaving
    split <;> omega
  omega

section Circle

def circle : Array Cell := #[104, 7, 1105, 1, 0]

def circleFirst : Fetched := ⟨0, 104, ⟨.output, [.immediate]⟩⟩

def circleSecond : Fetched := ⟨2, 1105, ⟨.jumpIfTrue, [.immediate, .immediate]⟩⟩

variable {m : Machine}

theorem cells_circle (hmem : m.mem = Memory.ofProgram circle) {i : Nat} (hi : i < 5) :
    m.mem.cells[i]? = circle[i]? := by
  rw [hmem]
  exact Array.getElem?_append_left hi

theorem step_circleFirst (hlive : m.state.isTerminal = false) (hmem : m.mem = Memory.ofProgram circle)
    (hpc : m.regs.pc = 0) :
    m.step = (.ok (.executed circleFirst.instruction), m.commit circleFirst (.emit 7)) := by
  have hfetch : m.fetch = .ok circleFirst :=
    Machine.fetch_of_cell (by rw [hpc]; rfl) (cells_circle hmem (by decide)) rfl
  have heffect : m.effect circleFirst = .ok (some (.emit 7)) := by
    simp only [Machine.effect, circleFirst, Machine.readParam, Machine.operand, Memory.read,
      cells_circle hmem (show 1 < 5 by decide)]
    rfl
  exact Machine.step_of_effect hlive hfetch heffect

theorem step_circleSecond (hlive : m.state.isTerminal = false) (hmem : m.mem = Memory.ofProgram circle)
    (hpc : m.regs.pc = 2) :
    m.step = (.ok (.executed circleSecond.instruction), m.commit circleSecond (.jump 0)) := by
  have hfetch : m.fetch = .ok circleSecond :=
    Machine.fetch_of_cell (by rw [hpc]; rfl) (cells_circle hmem (by decide)) rfl
  have heffect : m.effect circleSecond = .ok (some (.jump 0)) := by
    simp only [Machine.effect, circleSecond, Machine.branch, Machine.readParam, Machine.operand,
      Memory.read, cells_circle hmem (show 3 < 5 by decide), cells_circle hmem (show 4 < 5 by decide)]
    rfl
  exact Machine.step_of_effect hlive hfetch heffect

-- Said of any machine that holds the program, so that no row of cells is computed.
theorem stepped_circle (hlive : m.state.isTerminal = false) (hmem : m.mem = Memory.ofProgram circle)
    (hpc : m.regs.pc = 0) :
    (∀ i < 2, goesOn (m.stepped i).step.1 = true) ∧ (m.stepped 1).regs.pc = 2 ∧
      (m.stepped 2).regs.pc = 0 ∧ (m.stepped 2).output = m.output.push 7 := by
  have hfirst := step_circleFirst hlive hmem hpc
  have hone : m.stepped 1 = m.commit circleFirst (.emit 7) := by
    simp only [Machine.stepped, hfirst]
  have hpc' : (m.commit circleFirst (.emit 7)).regs.pc = 2 := by
    rw [Machine.commit_eq]
    simp only [Machine.apply, Registers.advance, hpc]
    rfl
  have hmem' : (m.commit circleFirst (.emit 7)).mem = Memory.ofProgram circle := by
    rw [Machine.commit_eq]
    exact hmem
  have hlive' : (m.commit circleFirst (.emit 7)).state.isTerminal = false := by
    rw [Machine.commit_eq]
    rfl
  have hsecond := step_circleSecond hlive' hmem' hpc'
  have htwo : m.stepped 2 = (m.commit circleFirst (.emit 7)).commit circleSecond (.jump 0) := by
    rw [Machine.stepped, hone, hsecond]
  refine ⟨?_, by rw [hone, hpc'], ?_, ?_⟩
  · intro i hi
    obtain rfl | rfl : i = 0 ∨ i = 1 := by omega
    · rw [Machine.stepped, hfirst]
      rfl
    · rw [hone, hsecond]
      rfl
  · rw [htwo, Machine.commit_eq]
    rfl
  · rw [htwo, Machine.commit_eq, Machine.commit_eq]
    rfl

/-- A run from a breakpoint to the same breakpoint: the first beat brings it back, the second one
notices. -/
theorem run_stops_at_breakpoints_circle :
    let d := (new circle).addBreakpoint 0
    d.machine.state.isTerminal = false ∧ d.machine.output = #[] ∧
      d.leaving = 1 ∧ d.firstStop = (2 : Nat) ∧
      (d.performed [.run, .tick]).running = true ∧
      d.callsOf [.run, .tick, .tick] = [.step, .step] ∧
      (d.performed [.run, .tick, .tick]).machine = (d.machine.stepped 2).clearOutput ∧
      (d.performed [.run, .tick, .tick]).log = #[7] ∧
      (d.performed [.run, .tick, .tick]).running = false := by
  intro d
  have hlive : d.machine.state.isTerminal = false := rfl
  have hquiet : d.machine.output = #[] := rfl
  have hleaving : d.leaving = 1 := by decide
  obtain ⟨hon, hone, htwo, houtput⟩ := stepped_circle (m := d.machine) hlive rfl rfl
  have harrives : d.ArrivesAt 2 := ⟨by omega, by rw [htwo]; decide⟩
  have hends : ∀ k ≤ 2, ¬ d.EndsAt k := by
    rintro k hk ⟨i, rfl, hoff⟩
    rw [hon i (by omega)] at hoff
    cases hoff
  have hfirst : d.firstStop = (2 : Nat) := by
    refine firstStop_eq (.inr harrives) ?_
    intro i hi
    obtain rfl | rfl : i = 0 ∨ i = 1 := by omega
    · rintro (⟨i, hi, _⟩ | ⟨hle, _⟩) <;> omega
    · rintro (hend | ⟨_, hb⟩)
      · exact hends 1 (by omega) hend
      · rw [hone] at hb
        exact absurd hb (by decide)
  have honly : ∀ k : Nat, d.firstStop = k → k = 2 := fun k hk => Nat.cast_injective (hk.symm.trans hfirst)
  obtain ⟨_, _, _, _, _, _, hstill⟩ := run_stops_at_breakpoints d 1 hlive hquiet
  obtain ⟨j, hj, hcalls, hmachine, hlog, _, hstopped⟩ := run_stops_at_breakpoints d 2 hlive hquiet
  obtain rfl : j = 2 := by
    rw [hleaving, hfirst] at hj
    exact Nat.cast_injective hj
  refine ⟨hlive, hquiet, hleaving, hfirst, ?_, hcalls, hmachine, ?_, ?_⟩
  · refine Bool.eq_true_of_not_eq_false fun hoff => ?_
    obtain ⟨k, hk, _, hend⟩ | ⟨k, hk, _, hle⟩ := hstill.mp hoff
    · obtain rfl := honly k hk
      exact hends 2 (by omega) hend
    · obtain rfl := honly k hk
      omega
  · rw [houtput, hquiet] at hlog
    exact hlog
  · exact hstopped.mpr (.inr ⟨2, hfirst, harrives, by omega⟩)

end Circle

end Debugger

end Intcode
