import Intcode.Proofs.Growth
set_option autoImplicit false

/-!
A restart is as good as a new machine. Whatever has been done to a machine, after a restart it is the
machine as built, but that a memory which has grown stays as long as it is. The zeros at its end make no
difference to anything that is done later, except that a program counter which leaves the shorter memory
may find one of them.
-/
namespace Intcode

theorem Count.toNat_max (a b : Count) : (max a b).toNat = max a.toNat b.toNat := by
  have hmax : max a b = if a ≤ b then b else a := rfl
  rw [hmax]
  split
  · rename_i h
    exact (Nat.max_eq_right (UInt64.le_iff_toNat_le.mp h)).symm
  · rename_i h
    exact (Nat.max_eq_left (Nat.le_of_not_le (mt UInt64.le_iff_toNat_le.mpr h))).symm

theorem Count.toNat_max_ofNat {n : Nat} (hceiling : n ≤ Memory.ceiling) (a : Count) :
    (max a (UInt64.ofNat n)).toNat = max a.toNat n := by
  have hsmall : (UInt64.ofNat n).toNat = n := by
    rw [UInt64.toNat_ofNat']
    unfold Memory.ceiling at hceiling
    omega
  rw [Count.toNat_max, hsmall]

namespace Machine

theorem step_mem (m : Machine) : m.step.2.program = m.program ∧
    (m.step.2.mem = m.mem ∨
      ∃ n value, m.mem.checkWrite n = .ok () ∧ m.step.2.mem = m.mem.store n value) := by
  cases ht : m.state.isTerminal with
  | true =>
    rw [step_of_terminal ht]
    exact ⟨rfl, .inl rfl⟩
  | false =>
    obtain ⟨e, _, hs⟩ | ⟨f, _, ⟨e, _, hs⟩ | ⟨_, hs⟩ | ⟨e, he, hs⟩⟩ := step_cases ht
    · rw [hs]
      exact ⟨rfl, .inl rfl⟩
    · rw [hs]
      exact ⟨rfl, .inl rfl⟩
    · rw [hs]
      exact ⟨rfl, .inl rfl⟩
    · rw [hs]
      refine ⟨commit_program m f e, ?_⟩
      rw [commit_mem, Effect.onMemory]
      cases hw : e.written? with
      | none => exact .inl rfl
      | some cell => exact .inr ⟨cell.1, cell.2, effect_checkWrite he hw, rfl⟩

/-- What never changes in the life of a machine that began as `start`. -/
structure Stems (start m : Machine) : Prop where
  program : m.program = start.program
  policy : m.mem.policy = start.mem.policy
  limit : m.mem.limit = start.mem.limit
  longer : start.mem.size ≤ m.mem.size
  strict : start.mem.policy = .strict → m.mem.size = start.mem.size
  roomy : start.mem.policy = .grow → m.mem.Roomy

section Stems
variable {start m m' : Machine}

theorem Stems.of_eq (h : Stems start m) (hp : m'.program = m.program) (hm : m'.mem = m.mem) :
    Stems start m' := by
  obtain ⟨program, policy, limit, longer, strict, roomy⟩ := h
  rw [← hm] at policy limit longer strict roomy
  exact ⟨hp.trans program, policy, limit, longer, strict, roomy⟩

theorem Stems.step (h : Stems start m) : Stems start m.step.2 := by
  obtain ⟨hprogram, hmem | ⟨n, value, hw, hmem⟩⟩ := step_mem m
  · exact h.of_eq hprogram hmem
  · have hlonger := h.longer
    refine ⟨hprogram.trans h.program, ?_, ?_, ?_, ?_, ?_⟩
    · rw [hmem]
      exact h.policy
    · rw [hmem]
      exact h.limit
    · rw [hmem, Memory.size_store]
      omega
    · intro hstrict
      -- A strict memory grants no write outside its row, so the row never grows.
      have hin : n < m.mem.size := by
        obtain ⟨hin | ⟨hgrow, _⟩, _⟩ := Memory.checkWrite_eq_ok_iff.mp hw
        · exact hin
        · simp [h.policy, hstrict] at hgrow
      rw [hmem, Memory.size_store, ← h.strict hstrict]
      omega
    · intro hgrow
      rw [hmem]
      exact (h.roomy hgrow).store value hw

theorem Stems.restart (hfits : start.program.size ≤ start.mem.size) (h : Stems start m) :
    Stems start m.restart := by
  have hsize : m.restart.mem.size = m.mem.size := by
    have hlonger := h.longer
    have hprogram := h.program
    simp only [Machine.restart, Memory.size_restore, hprogram]
    omega
  refine ⟨h.program, h.policy, h.limit, ?_, ?_, ?_⟩
  · rw [hsize]
    exact h.longer
  · rw [hsize]
    exact h.strict
  · intro hgrow
    obtain ⟨hpolicy, hbelow, hallocated⟩ := h.roomy hgrow
    refine ⟨hpolicy, ?_, ?_⟩
    · rw [hsize]
      exact hbelow
    · rw [hsize]
      exact hallocated

theorem invariant_stems (hfits : start.program.size ≤ start.mem.size) : Invariant (Stems start) where
  step h := h.step
  pushInput _ h := h.of_eq rfl rfl
  clearOutput h := h.of_eq rfl rfl
  clearTrace h := h.of_eq rfl rfl
  setTrace _ h := h.of_eq rfl rfl
  assign _ h := h.of_eq rfl rfl
  reset h := h.of_eq rfl rfl
  restart h := h.restart hfits

end Stems

section Built
variable {program : Array Cell} {input : List Cell} {config : Config} {m₀ m : Machine}

theorem size_fresh : (fresh program input config).mem.size =
    max program.size (max config.minMemory Memory.leastSize).toNat := Memory.size_image ..

theorem tape_fresh (n : Nat) : (fresh program input config).mem.tape n = program.getD n 0 :=
  Memory.getD_image ..

theorem fits_fresh : (fresh program input config).program.size ≤ (fresh program input config).mem.size := by
  rw [size_fresh]
  exact Nat.le_max_left ..

theorem toNat_limit_fresh (hceiling : program.size ≤ Memory.ceiling) :
    (fresh program input config).mem.limit.toNat = max config.maxMemory.toNat program.size :=
  Count.toNat_max_ofNat hceiling config.maxMemory

theorem roomy_fresh (h : build program input config = .ok m₀) (hgrow : config.policy = .grow) :
    (fresh program input config).mem.Roomy := by
  obtain ⟨hleast, hceiling, _⟩ := build_eq_ok_iff.mp h
  refine ⟨hgrow, ?_, ?_⟩
  · have hleast' := UInt64.le_iff_toNat_le.mp hleast
    rw [size_fresh, toNat_limit_fresh (by omega)]
    omega
  · rw [size_fresh]
    exact hceiling

theorem stems_of_reaches (h : build program input config = .ok m₀) (hr : Reaches m₀ m) :
    Stems (fresh program input config) m := by
  obtain ⟨_, _, rfl⟩ := build_eq_ok_iff.mp h
  apply (invariant_stems fits_fresh).reaches hr
  exact ⟨rfl, rfl, rfl, Nat.le_refl _, fun _ => rfl, roomy_fresh h⟩

theorem restart_eq_withMemory (h : Stems (fresh program input config) m) :
    m.restart = ((fresh program [] config).setTrace m.tracing).withMemory (m.mem.restore program) := by
  have hprogram : m.program = program := h.program
  simp only [restart, hprogram]
  rfl

theorem restart_of_strict (h : Stems (fresh program input config) m) (hstrict : config.policy = .strict) :
    m.restart = (fresh program [] config).setTrace m.tracing := by
  have hsize : m.mem.size = (fresh program [] config).mem.size := h.strict hstrict
  have hmem : m.mem.restore program = (fresh program [] config).mem := by
    apply Memory.ext_tape
    · rw [Memory.size_restore, hsize, size_fresh]
      omega
    · intro n
      rw [Memory.tape_restore, tape_fresh]
    · exact h.policy
    · exact h.limit
  rw [restart_eq_withMemory h, hmem]
  rfl

theorem restart_of_grow (h : Stems (fresh program input config) m) (hgrow : config.policy = .grow) :
    Twins Memory.Lengthened m.restart ((fresh program [] config).setTrace m.tracing) := by
  have hlonger : (fresh program [] config).mem.size ≤ m.mem.size := h.longer
  have hfits : program.size ≤ (fresh program [] config).mem.size := fits_fresh
  have hprogram : m.program = program := h.program
  have hmem : m.restart.mem = m.mem.restore program := by simp only [restart, hprogram]
  refine ⟨⟨hgrow, (h.restart fits_fresh).roomy hgrow, h.limit, ?_, ?_, hfits⟩, ?_⟩
  · intro n
    have hfresh : (fresh program [] config).mem.tape n = program.getD n 0 := tape_fresh n
    rw [hmem, Memory.tape_restore, ← hfresh]
    rfl
  · rw [hmem, Memory.size_restore]
    exact Nat.le_trans hlonger (Nat.le_max_right ..)
  · rw [hmem]
    exact restart_eq_withMemory h

end Built

/-- What a machine with zeros after its memory makes of a call, beside one without them. -/
def Padded : Reply × Machine → Reply × Machine → Prop :=
  Matched (fun m f => ∃ k, m = f.pad k) MachineError.Overrun

theorem padded_of_matched {long short : Reply × Machine}
    (h : Matched (Twins Memory.Lengthened) MachineError.Overrun long short) : Padded long short :=
  ⟨h.1.eq_pad, h.2⟩

section Sessions
variable {b a : Machine} {calls : List Call}

theorem session_lengthened_iff (h : Twins Memory.Lengthened b a) :
    (∃ events, b.Session calls events) ↔ ∃ events, a.Session calls events := by
  have hgood := Reply.not_met MachineError.not_ofMemory_false
  constructor
  · rintro ⟨events, hb⟩
    obtain ⟨events, ha, _⟩ | ⟨_, _, _, _, event, _, hmet⟩ := lockstep_lengthened.session_back h hb
    · exact ⟨events, ha⟩
    · exact absurd hmet (hgood event.1)
  · rintro ⟨events, ha⟩
    obtain ⟨events, hb, _⟩ := lockstep_lengthened.session h ha fun event _ => hgood event.1
    exact ⟨events, hb⟩

theorem session_padded (h : Twins Memory.Lengthened b a) {long short : List (Reply × Machine)}
    (hb : b.Session calls long) (ha : a.Session calls short) : List.Forall₂ Padded long short := by
  obtain ⟨events, hb', hall⟩ := lockstep_lengthened.session h ha fun event _ =>
    Reply.not_met MachineError.not_ofMemory_false event.1
  obtain rfl := hb.unique hb'
  exact hall.imp fun _ _ => padded_of_matched

end Sessions

/-- After any calls, a restart leaves the machine as it was built. If the memory has grown it keeps its
size, and then any later session comes back just as it does from a new machine, with replies and machines
that match call by call. -/
theorem restart_eq_build (program : Array Cell) (input : List Cell) (config : Config) (m₀ m : Machine)
    (hbuild : build program input config = .ok m₀) (hreach : Reaches m₀ m) :
    ∃ built, build program [] config = .ok built ∧
      (config.policy = .strict → m.restart = built.setTrace m.tracing) ∧
      (config.policy = .grow →
        (∃ k, m.restart = (built.setTrace m.tracing).pad k) ∧
        ∀ calls,
          ((∃ events, m.restart.Session calls events) ↔
            ∃ events, (built.setTrace m.tracing).Session calls events) ∧
          ∀ long short, m.restart.Session calls long → (built.setTrace m.tracing).Session calls short →
            List.Forall₂ Padded long short) := by
  have hstems := stems_of_reaches hbuild hreach
  obtain ⟨hleast, hceiling, _⟩ := build_eq_ok_iff.mp hbuild
  refine ⟨fresh program [] config, build_eq_ok_iff.mpr ⟨hleast, hceiling, rfl⟩,
    restart_of_strict hstems, ?_⟩
  intro hgrow
  have htwins := restart_of_grow hstems hgrow
  refine ⟨htwins.eq_pad, ?_⟩
  intro calls
  exact ⟨session_lengthened_iff htwins, fun _ _ => session_padded htwins⟩

section Sprawl

def sprawl : Array Cell := #[1101, 1, 1, 8192, 99]

def sprawlStore : Fetched := ⟨0, 1101, ⟨.add, [.immediate, .immediate, .position]⟩⟩

theorem build_sprawl : build sprawl [] {} = .ok (fresh sprawl [] {}) :=
  build_eq_ok_iff.mpr ⟨by decide, by decide, rfl⟩

theorem size_sprawl : (fresh sprawl [] {}).mem.size = 8192 := size_fresh

-- Said of any machine that holds the program, so that no row of cells is computed.
theorem effect_sprawlStore {m : Machine} (hread : ∀ n < 5, m.mem.read n = .ok (sprawl.getD n 0))
    (hwrite : m.mem.checkWrite 8192 = .ok ()) : m.effect sprawlStore = .ok (some (.store 8192 2)) := by
  have hleft : m.readParam sprawlStore 0 = .ok 1 := by
    simp only [readParam, operand, sprawlStore, hread 1 (by decide)]
    rfl
  have hright : m.readParam sprawlStore 1 = .ok 1 := by
    simp only [readParam, operand, sprawlStore, hread 2 (by decide)]
    rfl
  have htarget : m.target sprawlStore 2 = .ok 8192 := by
    have hoperand : m.operand sprawlStore 2 = .ok (.address 8192) := by
      simp only [operand, sprawlStore, hread 3 (by decide)]
      rfl
    exact Fallible.bind_eq_ok.mpr ⟨_, hoperand,
      Fallible.bind_eq_ok.mpr ⟨(), Fallible.mapError_eq_ok.mpr hwrite, rfl⟩⟩
  have hop : sprawlStore.instruction.opcode = .add := rfl
  simp only [effect, hop, combine, hleft, hright, htarget]
  rfl

theorem size_step_sprawl : (fresh sprawl [] {}).step.2.mem.size = 8193 := by
  have hroomy := roomy_fresh build_sprawl rfl
  have hlimit : (fresh sprawl [] {}).mem.limit = 16777216 := rfl
  have hread : ∀ n < 5, (fresh sprawl [] {}).mem.read n = .ok (sprawl.getD n 0) := by
    intro n hn
    rw [hroomy.read_eq, tape_fresh, hlimit, if_pos]
    exact Nat.lt_trans hn (by decide)
  have hwrite : (fresh sprawl [] {}).mem.checkWrite 8192 = .ok () := by
    rw [hroomy.checkWrite_eq, hlimit]
    rfl
  have hfetch : (fresh sprawl [] {}).fetch = .ok sprawlStore := by
    refine fetch_eq_ok_iff.mpr ⟨rfl, ?_, ?_, rfl⟩
    · rw [size_sprawl]
      decide
    · rw [tape_fresh]
      rfl
  rw [step_of_effect rfl hfetch (effect_sprawlStore hread hwrite)]
  simp only [commit_mem]
  exact (Memory.size_store ..).trans (by rw [size_sprawl]; rfl)

/-- After the store the memory has one cell more than a new machine's, and a restart leaves just that. -/
theorem restart_eq_build_grown :
    let grown := (fresh sprawl [] {}).step.2
    build sprawl [] {} = .ok (fresh sprawl [] {}) ∧ Reaches (fresh sprawl [] {}) grown ∧
      grown.restart = ((fresh sprawl [] {}).setTrace grown.tracing).pad 1 ∧
      ∀ calls long short, grown.restart.Session calls long →
        ((fresh sprawl [] {}).setTrace grown.tracing).Session calls short →
        List.Forall₂ Padded long short := by
  intro grown
  have hstep : (fresh sprawl [] {}).Answers .step (.step (fresh sprawl [] {}).step.1) grown := ⟨0, rfl⟩
  have hreach : Reaches (fresh sprawl [] {}) grown := .next hstep (.refl _)
  obtain ⟨built, hbuilt, _, hgrow⟩ := restart_eq_build sprawl [] {} _ grown build_sprawl hreach
  obtain rfl : fresh sprawl [] {} = built := Except.ok.inj (build_sprawl.symm.trans hbuilt)
  obtain ⟨⟨k, hpad⟩, hsessions⟩ := hgrow rfl
  have hprogram : grown.program = sprawl := (step_mem (fresh sprawl [] {})).1
  have hgrown : grown.restart.mem.size = 8193 := by
    simp only [restart, Memory.size_restore, hprogram]
    rw [size_step_sprawl]
    rfl
  have hpadded : grown.restart.mem.size = (fresh sprawl [] {}).mem.size + k :=
    (congrArg (·.mem.size) hpad).trans (Memory.size_pad ..)
  obtain rfl : k = 1 := by
    rw [hgrown, size_sprawl] at hpadded
    omega
  exact ⟨build_sprawl, hreach, hpad, fun calls => (hsessions calls).2⟩

end Sprawl

end Machine

end Intcode
