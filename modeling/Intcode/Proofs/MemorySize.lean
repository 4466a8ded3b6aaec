import Intcode.Proofs.Restart
import Intcode.Proofs.Snapshot
set_option autoImplicit false

/-!
The size of memory over whole lives. The two ways of building a machine size its memory alike, and
whatever is done to the machine later, the row of cells only ever gets longer, within the limit that was
set at first or not at all.
-/
namespace Intcode

namespace Machine

/-- A machine as it is built with a configuration, or without one. Programs are rows of cells like any
other, so none is longer than `Memory.ceiling`. -/
inductive Built (program : Array Cell) : Config → Machine → Prop
  | plain (input : List Cell) : program.size ≤ Memory.ceiling → Built program {} (new program input)
  | configured {input : List Cell} {config : Config} {m : Machine} :
      build program input config = .ok m → Built program config m

/-- What may become of a machine: it is called, or written down and read again. A copy of it is the same
machine. -/
inductive Descends : Machine → Machine → Prop
  | refl (m : Machine) : Descends m m
  | next {m mid after : Machine} {call : Call} {reply : Reply} :
      m.Answers call reply mid → Descends mid after → Descends m after
  | reload {m mid after : Machine} :
      ofSnapshot? m.snapshot = some mid → Descends mid after → Descends m after

section Lives
variable {m m' : Machine}

theorem Descends.reaches (h : Descends m m') : Reaches m m' := by
  induction h with
  | refl m => exact .refl m
  | next ha _ ih => exact .next ha ih
  | @reload m mid after hread _ ih =>
    obtain rfl : m = mid := Option.some.inj ((faithful_machine.text m).symm.trans hread)
    exact ih

theorem invariant_size (n : Nat) : Invariant fun m => n ≤ m.mem.size where
  step {m} h := by
    obtain ⟨_, hmem | ⟨address, value, _, hmem⟩⟩ := step_mem m
    · rwa [hmem]
    · rw [hmem, Memory.size_store]
      omega
  pushInput _ h := h
  clearOutput h := h
  clearTrace h := h
  setTrace _ h := h
  assign _ h := h
  reset h := h
  restart {m} h := by
    simp only [Machine.restart, Memory.size_restore]
    omega

theorem Descends.size_le (h : Descends m m') : m.mem.size ≤ m'.mem.size :=
  (invariant_size m.mem.size).reaches h.reaches (Nat.le_refl _)

end Lives

section Building
variable {program : Array Cell} {input : List Cell} {config : Config} {m₀ m : Machine}

theorem new_eq_fresh : new program input = fresh program input {} := by
  have hleast : max Memory.leastSize Memory.leastSize = Memory.leastSize := by decide
  simp [new, ofMemory, fresh, Memory.ofProgram, hleast]

theorem build_default_eq_ok_iff :
    build program input {} = .ok m ↔ program.size ≤ Memory.ceiling ∧ m = new program input := by
  have hleast : (max Memory.leastSize Memory.leastSize).toNat = 8192 := by decide
  have hbelow : max Memory.leastSize Memory.leastSize ≤ Memory.defaultLimit := by decide
  have hroom : max program.size 8192 ≤ Memory.ceiling ↔ program.size ≤ Memory.ceiling := by
    unfold Memory.ceiling
    omega
  rw [build_eq_ok_iff, new_eq_fresh]
  simp only [hleast, hbelow, hroom, true_and]

theorem Built.exists_build (h : Built program config m₀) : ∃ input, build program input config = .ok m₀ := by
  cases h with
  | plain input hceiling => exact ⟨input, build_default_eq_ok_iff.mpr ⟨hceiling, rfl⟩⟩
  | @configured input _ _ h => exact ⟨input, h⟩

theorem size_fresh_toNat : (fresh program input config).mem.size =
    max program.size (max config.minMemory.toNat 8192) := by
  rw [size_fresh, Count.toNat_max]
  rfl

end Building

/-- From the first to the last, a machine's memory has at least 8192 cells and room for the program; it is
never made shorter, and it is as long as it was built or within its limit, as its policy has it. The limit
and the program stay what they were. And the default configuration is what a machine without one gets. -/
theorem memory_size_invariant (program : Array Cell) :
    (∀ config m₀ m, Built program config m₀ → Descends m₀ m →
      (∀ m', Descends m m' → m.mem.size ≤ m'.mem.size) ∧
      max 8192 program.size ≤ m.mem.size ∧
      m.mem.limit.toNat = max config.maxMemory.toNat program.size ∧
      m.program = program ∧
      m.mem.policy = config.policy ∧
      (config.policy = .grow → m.mem.size ≤ m.mem.limit.toNat) ∧
      (config.policy = .strict → m.mem.size = max program.size (max config.minMemory.toNat 8192))) ∧
    ∀ input built, build program input {} = .ok built ↔
      program.size ≤ Memory.ceiling ∧ built = new program input := by
  refine ⟨?_, fun _ _ => build_default_eq_ok_iff⟩
  intro config m₀ m hbuilt hlife
  obtain ⟨input, hbuild⟩ := hbuilt.exists_build
  have hstems := stems_of_reaches hbuild hlife.reaches
  have hceiling : program.size ≤ Memory.ceiling :=
    Nat.le_trans (Nat.le_max_left ..) (build_eq_ok_iff.mp hbuild).2.1
  have hlonger := hstems.longer
  rw [size_fresh_toNat] at hlonger
  refine ⟨fun m' h => h.size_le, by omega, ?_, hstems.program, hstems.policy, ?_, ?_⟩
  · rw [hstems.limit]
    exact toNat_limit_fresh hceiling
  · intro hgrow
    exact (hstems.roomy hgrow).below
  · intro hstrict
    exact (hstems.strict hstrict).trans size_fresh_toNat

/-- A memory that has grown by one cell, in a machine that was written down and read again. -/
theorem memory_size_invariant_sprawl :
    let grown := (new sprawl []).step.2
    Built sprawl {} (new sprawl []) ∧ Descends (new sprawl []) grown.restart ∧
      (new sprawl []).mem.size = 8192 ∧ grown.mem.size = 8193 ∧
      grown.mem.size ≤ grown.restart.mem.size ∧
      grown.restart.mem.size ≤ grown.restart.mem.limit.toNat ∧
      grown.restart.mem.limit.toNat = 16777216 := by
  intro grown
  have hbuilt : Built sprawl {} (new sprawl []) := .plain [] (by decide)
  have hstep : (new sprawl []).Answers .step (.step (new sprawl []).step.1) grown := ⟨0, rfl⟩
  have hanew : grown.Answers .restart .done grown.restart := ⟨0, rfl⟩
  have hgrown : Descends (new sprawl []) grown := .next hstep (.refl _)
  have hrestart : Descends grown grown.restart := .next hanew (.refl _)
  have hlife : Descends (new sprawl []) grown.restart :=
    .next hstep (.reload (faithful_machine.text grown) hrestart)
  obtain ⟨_, _, hlimit, _, _, hbelow, _⟩ :=
    (memory_size_invariant sprawl).1 {} _ grown.restart hbuilt hlife
  refine ⟨hbuilt, hlife, ?_, ?_, ?_, hbelow rfl, hlimit⟩
  · rw [new_eq_fresh]
    exact size_sprawl
  · simp only [grown, new_eq_fresh]
    exact size_step_sprawl
  · exact ((memory_size_invariant sprawl).1 {} _ grown hbuilt hgrown).1 _ hrestart

end Machine

end Intcode
