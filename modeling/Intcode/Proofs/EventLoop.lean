import Intcode.Debugger.Keys
import Intcode.Proofs.Attempts
import Intcode.Proofs.MemorySize
set_option autoImplicit false

/-!
The event loop of the debugger. Whatever keys are pressed, the parts of the debugger fit together after
every turn: it scrolls within memory, it does not run while it is typed to, and a debugger that is still
running has just executed an instruction. A key alone may break the last of these, by starting to run a
machine that cannot go on; the beat after the key mends it.
-/
namespace Intcode.Debugger

structure Steady (d : Debugger) : Prop where
  scroll : d.scroll < d.machine.mem.size
  paused : d.typing = true → d.running = false
  empty : d.typing = false → d.buffer = []
  quiet : d.machine.output = #[]

/-- What is so after every turn. A debugger that shows running is never on a machine that is blocked, halted
or failed. -/
structure Consistent (d : Debugger) : Prop extends Steady d where
  running : d.running = true → d.machine.state = .running

variable {d : Debugger}

theorem steady_new (program : Array Cell) : (new program).Steady where
  scroll := by
    have hsize : (new program).machine.mem.size = max program.size Memory.leastSize.toNat :=
      Memory.size_image ..
    have hleast : 0 < Memory.leastSize.toNat := by decide
    simp only [hsize]
    exact Nat.lt_of_lt_of_le hleast (Nat.le_max_right ..)
  paused _ := rfl
  empty _ := rfl
  quiet := rfl

namespace Steady

theorem step (h : d.Steady) : d.step.Steady := by
  cases ht : d.machine.state.isTerminal with
  | true =>
    obtain ⟨status, hstep⟩ := step_of_terminal ht
    rw [hstep]
    exact ⟨h.scroll, fun _ => rfl, h.empty, h.quiet⟩
  | false =>
    obtain ⟨status, hstep⟩ := step_of_live ht
    rw [hstep]
    refine ⟨?_, ?_, h.empty, rfl⟩
    · exact (Machine.invariant_size (d.scroll + 1)).step h.scroll
    · intro htyping
      simp [h.paused htyping]

theorem tick (h : d.Steady) : d.tick.Steady := by
  obtain ⟨_, htick⟩ | ⟨_, _, status, htick⟩ | ⟨_, _, _, htick⟩ := tick_cases d
  · rwa [htick]
  · rw [htick]
    exact ⟨h.scroll, fun _ => rfl, h.empty, h.quiet⟩
  · rw [htick]
    exact h.step

theorem run (h : d.Steady) (htyping : d.typing = false) : d.run.Steady := by
  have hstarted : { d with running := true, status := "Running..." }.Steady :=
    ⟨h.scroll, by simp [htyping], h.empty, h.quiet⟩
  obtain ⟨_, hrun⟩ | ⟨_, hrun⟩ := run_cases d
  · rw [hrun]
    exact hstarted.step
  · rwa [hrun]

theorem pause (h : d.Steady) : d.pause.Steady := ⟨h.scroll, fun _ => rfl, h.empty, h.quiet⟩

theorem reset (h : d.Steady) : d.reset.Steady where
  scroll := (Machine.invariant_size (d.scroll + 1)).restart h.scroll
  paused _ := rfl
  empty := h.empty
  quiet := rfl

theorem toggleBreakpoint (h : d.Steady) : d.toggleBreakpoint.Steady := by
  simp only [Debugger.toggleBreakpoint]
  split <;> exact ⟨h.scroll, h.paused, h.empty, h.quiet⟩

theorem submit (h : d.Steady) (htyping : d.typing = true) : d.submit.Steady := by
  unfold Debugger.submit
  split
  · exact ⟨h.scroll, nofun, fun _ => rfl, h.quiet⟩
  · exact ⟨h.scroll, h.paused, by simp [htyping], h.quiet⟩

theorem editKey (h : d.Steady) (htyping : d.typing = true) (k : Key) : (d.editKey k).Steady := by
  cases k with
  | enter => exact h.submit htyping
  | escape => exact ⟨h.scroll, nofun, fun _ => rfl, h.quiet⟩
  | backspace | char c => exact ⟨h.scroll, h.paused, by simp [Debugger.editKey, htyping], h.quiet⟩
  | up | down | pageUp | pageDown | other => exact h

theorem commandKey (h : d.Steady) (htyping : d.typing = false) (k : Key) : (d.commandKey k).Steady := by
  have hscroll := h.scroll
  unfold Debugger.commandKey
  split
  · exact ⟨h.scroll, h.paused, h.empty, h.quiet⟩
  · exact h.pause.step
  · exact h.run htyping
  · exact ⟨h.scroll, fun _ => rfl, h.empty, h.quiet⟩
  · exact h.toggleBreakpoint
  · exact ⟨h.scroll, fun _ => rfl, nofun, h.quiet⟩
  · exact h.reset
  · exact ⟨Nat.lt_of_le_of_lt (Nat.sub_le ..) hscroll, h.paused, h.empty, h.quiet⟩
  · split
    · rename_i hroom
      exact ⟨hroom, h.paused, h.empty, h.quiet⟩
    · exact h
  · refine ⟨?_, h.paused, h.empty, h.quiet⟩
    simp only
    omega
  · exact ⟨Nat.lt_of_le_of_lt (Nat.sub_le ..) hscroll, h.paused, h.empty, h.quiet⟩
  · exact h

theorem press (h : d.Steady) (k : Key) : (d.press k).Steady := by
  unfold Debugger.press
  split
  · rename_i htyping
    exact h.editKey htyping k
  · rename_i htyping
    exact h.commandKey (by simpa using htyping) k

/-- After a beat the debugger is still running only if the beat has executed an instruction. -/
theorem consistent_tick (h : d.Steady) : d.tick.Consistent := by
  refine ⟨h.tick, ?_⟩
  intro hrunning
  obtain ⟨hstopped, htick⟩ | ⟨_, _, status, htick⟩ | ⟨_, ht, _, htick⟩ := tick_cases d
  · simp [htick, hstopped] at hrunning
  · simp [htick] at hrunning
  · obtain ⟨status, hstep⟩ := step_of_live ht
    rw [htick, hstep] at hrunning ⊢
    exact state_of_goesOn (Bool.and_eq_true_iff.mp hrunning).2

theorem consistent_beat (h : d.Steady) : (if d.running then d.tick else d).Consistent := by
  split
  · exact h.consistent_tick
  · rename_i hstopped
    exact ⟨h, fun hrunning => absurd hrunning hstopped⟩

theorem turn (h : d.Steady) (k : Option Key) : (d.turn k).Consistent := by
  cases k with
  | none => exact h.consistent_beat
  | some k => exact (h.press k).consistent_beat

end Steady

def turns (d : Debugger) (keys : List (Option Key)) : Debugger := keys.foldl turn d

theorem Consistent.turns (h : d.Consistent) (keys : List (Option Key)) : (d.turns keys).Consistent := by
  induction keys generalizing d with
  | nil => exact h
  | cons k keys ih => exact ih (h.toSteady.turn k)

/-- After every turn the scroll offset is within memory, the debugger does not run while it is typed to, the
input line is empty unless it is typed to, all output has been logged, and if the debugger is running then
so is its machine. -/
theorem consistent_turns_new (program : Array Cell) (keys : List (Option Key)) :
    ((new program).turns keys).Consistent := by
  have hnew : (new program).Consistent := ⟨steady_new program, nofun⟩
  exact hnew.turns keys

end Intcode.Debugger
