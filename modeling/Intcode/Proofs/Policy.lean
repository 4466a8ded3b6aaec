import Intcode.Proofs.Twins
set_option autoImplicit false

/-!
What the policy changes. A strict memory and a growing one give the same answers inside the row, so two
machines that differ in policy alone go the same way until the strict one is asked for a cell that is not
there. Strictness turns a session into a failure at that call and changes nothing before it.
-/
namespace Intcode

namespace Memory

def withPolicy (m : Memory) (policy : Policy) : Memory := { m with policy := policy }

/-- The second memory is strict, and the first is the same but that it grows. -/
structure Loosened (b a : Memory) : Prop where
  strict : a.policy = .strict
  rest : b = a.withPolicy .grow

end Memory

def MemoryError.IsOutOfRange : MemoryError → Prop
  | .outOfRange _ _ => True
  | _ => False

namespace Memory
variable {b a : Memory}

theorem Loosened.agrees (h : b.Loosened a) : b.Agrees MemoryError.IsOutOfRange a := by
  constructor
  · intro address
    rw [h.rest]
    unfold read withPolicy
    cases a.cells[address]? with
    | some value => exact .inl rfl
    | none =>
      rw [h.strict]
      exact .inr ⟨_, rfl, trivial⟩
  · intro address
    rw [h.rest]
    unfold checkWrite
    by_cases hin : address < a.size
    · have hin' : address < (a.withPolicy .grow).size := hin
      rw [if_pos hin, if_pos hin']
      exact .inl rfl
    · rw [if_neg hin, h.strict]
      exact .inr ⟨_, rfl, trivial⟩

theorem kept_loosened : Kept (fun _ => Loosened) MemoryError.IsOutOfRange where
  agrees h := h.agrees
  store address value h _ := ⟨h.strict, congrArg (store · address value) h.rest⟩
  restore {program _ _} h := ⟨h.strict, congrArg (restore · program) h.rest⟩

end Memory

namespace Machine

def withPolicy (m : Machine) (policy : Policy) : Machine := m.withMemory (m.mem.withPolicy policy)

variable {m b a : Machine}

theorem twins_loosened_iff : Twins (fun _ => Memory.Loosened) b a ↔
    a.mem.policy = .strict ∧ b = a.withPolicy .grow := by
  constructor
  · intro h
    refine ⟨h.memories.strict, ?_⟩
    rw [h.rest, h.memories.rest]
    rfl
  · rintro ⟨hstrict, rfl⟩
    exact ⟨⟨hstrict, rfl⟩, rfl⟩

theorem lockstep_loosened : Lockstep (Twins fun _ => Memory.Loosened) (fun _ _ => False)
    (MachineError.OfMemory MemoryError.IsOutOfRange) := by
  apply lockstep_twins Memory.kept_loosened
  intro b a h
  obtain ⟨_, rfl⟩ := twins_loosened_iff.mp h
  exact .inl rfl

def underPolicy (policy : Policy) (events : List (Reply × Machine)) : List (Reply × Machine) :=
  events.map fun event => (event.1, event.2.withPolicy policy)

theorem matched_loosened {eb ea : Reply × Machine}
    (h : Matched (Twins fun _ => Memory.Loosened) (fun _ _ => False) eb ea) :
    eb = (ea.1, ea.2.withPolicy .grow) ∧ ea = (eb.1, eb.2.withPolicy .strict) := by
  rcases eb with ⟨rb, b⟩
  rcases ea with ⟨ra, a⟩
  obtain ⟨hrel, hsame | ⟨hstands, _⟩⟩ := h
  · obtain ⟨hstrict, hb⟩ := twins_loosened_iff.mp hrel
    refine ⟨Prod.ext hsame hb, Prod.ext hsame.symm ?_⟩
    rw [hb]
    simp only [withPolicy, withMemory, Memory.withPolicy, ← hstrict]
  · cases hstands <;> contradiction

theorem forall₂_loosened {eventsb eventsa : List (Reply × Machine)}
    (h : List.Forall₂ (Matched (Twins fun _ => Memory.Loosened) fun _ _ => False) eventsb eventsa) :
    eventsb = underPolicy .grow eventsa ∧ eventsa = underPolicy .strict eventsb := by
  induction h with
  | nil => exact ⟨rfl, rfl⟩
  | cons hhead _ ih =>
    obtain ⟨hb, ha⟩ := matched_loosened hhead
    refine ⟨?_, ?_⟩
    · rw [ih.1, hb]
      rfl
    · rw [ih.2, ha]
      rfl

/-- Whether a machine can be built does not hang on the policy, and nothing else of the machine does. -/
theorem build_withPolicy (program : Array Cell) (input : List Cell) (config : Config) (policy : Policy) :
    build program input { config with policy := policy } =
      (·.withPolicy policy) <$> build program input config := by
  simp only [build_eq]
  split
  · rfl
  · split
    · rfl
    · rfl

/-- Up to the first call that sends the strict machine outside its row, every call gets the same reply
from both and leaves them the same but for the policy; and none of these calls comes back from one
machine and not from the other. -/
theorem session_strict_eq_grow (program : Array Cell) (input : List Cell) (config : Config) :
    let outside := MachineError.OfMemory MemoryError.IsOutOfRange
    (∀ e, build program input { config with policy := .strict } = .error e ↔
      build program input { config with policy := .grow } = .error e) ∧
    ∀ s, build program input { config with policy := .strict } = .ok s →
      build program input { config with policy := .grow } = .ok (s.withPolicy .grow) ∧
      (∀ calls events n, s.Session calls events → (∀ event ∈ events.take n, ¬ event.1.Met outside) →
        (s.withPolicy .grow).Session (calls.take n) (underPolicy .grow (events.take n))) ∧
      ∀ calls events, (s.withPolicy .grow).Session calls events →
        s.Session calls (underPolicy .strict events) ∨
        ∃ done events', done <+: calls ∧ s.Session done events' ∧
          ∃ event ∈ events', event.1.Met outside := by
  intro outside
  refine ⟨?_, ?_⟩
  · intro e
    rw [build_withPolicy program input config .strict, build_withPolicy program input config .grow,
      Fallible.map_eq_error, Fallible.map_eq_error]
  · intro s hs
    rw [build_withPolicy program input config .grow]
    rw [build_withPolicy program input config .strict] at hs
    obtain ⟨m, hm, rfl⟩ := Fallible.map_eq_ok.mp hs
    have htwins : Twins (fun _ => Memory.Loosened) ((m.withPolicy .strict).withPolicy .grow)
        (m.withPolicy .strict) := twins_loosened_iff.mpr ⟨rfl, rfl⟩
    refine ⟨?_, ?_, ?_⟩
    · rw [hm]
      rfl
    · intro calls events n hsession hgood
      obtain ⟨events', hsession', hall⟩ := lockstep_loosened.session htwins (hsession.take n) hgood
      rw [← (forall₂_loosened hall).1]
      exact hsession'
    · intro calls events hsession
      obtain ⟨events', hsession', hall⟩ | hmet := lockstep_loosened.session_back htwins hsession
      · rw [← (forall₂_loosened hall).2]
        exact .inl hsession'
      · exact .inr hmet

section Prowl

def prowl : Array Cell := #[104, 7, 4, 8192, 99]

def prowlFirst : Fetched := ⟨0, 104, ⟨.output, [.immediate]⟩⟩

def prowlSecond : Fetched := ⟨2, 4, ⟨.output, [.position]⟩⟩

structure Prowls (m : Machine) : Prop where
  strict : m.mem.policy = .strict
  size : m.mem.size = 8192
  cells : ∀ n < 5, m.mem.cells[n]? = prowl[n]?

variable {m : Machine}

theorem Prowls.fetch (h : m.Prowls) {n : Nat} {word : Cell} {i : Instruction} (hn : n < 5)
    (hpc : m.regs.pc.toInt = n) (hword : prowl[n]? = some word) (hdecode : decode word = .ok i) :
    m.fetch = .ok ⟨n, word, i⟩ :=
  fetch_of_cell hpc ((h.cells n hn).trans hword) hdecode

theorem Prowls.step_first (h : m.Prowls) (hstate : m.state = .ready) (hregs : m.regs = {}) :
    m.step = (.ok (.executed prowlFirst.instruction), m.commit prowlFirst (.emit 7)) := by
  have hfetch : m.fetch = .ok prowlFirst := h.fetch (by decide) (by rw [hregs]; rfl) rfl rfl
  have heffect : m.effect prowlFirst = .ok (some (.emit 7)) := by
    simp only [effect, prowlFirst, readParam, operand, Memory.read, h.cells 1 (by decide)]
    rfl
  exact step_of_effect (by rw [hstate]; rfl) hfetch heffect

theorem Prowls.step_second (h : m.Prowls) (hstate : m.state = .running) (hregs : m.regs = { pc := 2 }) :
    m.step = (.error (.memory (.outOfRange 8192 8192)), { m with state := .errored }) := by
  have hfetch : m.fetch = .ok prowlSecond := h.fetch (by decide) (by rw [hregs]; rfl) rfl rfl
  have hoperand : m.operand prowlSecond 0 = .ok (.address 8192) := by
    simp only [operand, prowlSecond, Memory.read, h.cells 3 (by decide)]
    rfl
  have hread : m.mem.read 8192 = .error (.outOfRange 8192 8192) := by
    have hnone : m.mem.cells[8192]? = none := Array.getElem?_eq_none (Nat.le_of_eq h.size)
    simp only [Memory.read, hnone, h.strict, h.size]
  have hparam : m.readParam prowlSecond 0 = .error (.memory (.outOfRange 8192 8192)) :=
    Fallible.bind_eq_error.mpr (.inr ⟨_, hoperand, Fallible.mapError_eq_error.mpr ⟨_, hread, rfl⟩⟩)
  exact step_of_effect_error (by rw [hstate]; rfl) hfetch (Fallible.bind_eq_error.mpr (.inl hparam))

theorem Prowls.session (h : m.Prowls) (hstate : m.state = .ready) (hregs : m.regs = {}) :
    ∃ mid, m.Session [.step, .step]
      [(.step (.ok (.executed ⟨.output, [.immediate]⟩)), mid),
        (.step (.error (.memory (.outOfRange 8192 8192))), { mid with state := .errored })] := by
  have hfirst := h.step_first hstate hregs
  have hmem : (m.commit prowlFirst (.emit 7)).mem = m.mem := commit_mem ..
  have hmid : (m.commit prowlFirst (.emit 7)).Prowls := by
    obtain ⟨strict, size, cells⟩ := h
    rw [← hmem] at strict size cells
    exact ⟨strict, size, cells⟩
  have hregs' : (m.commit prowlFirst (.emit 7)).regs = { pc := 2 } := by
    rw [commit_eq]
    simp only [apply, hregs]
    rfl
  have hsecond := hmid.step_second (by rw [commit_eq]; rfl) hregs'
  exact ⟨_, .cons ⟨0, by simp only [ask?, hfirst]; rfl⟩ (.cons ⟨0, by simp only [ask?, hsecond]⟩ (.nil _))⟩

/-- The first step is the same under both policies; the second leaves the row. -/
theorem session_strict_eq_grow_prowl :
    let s := fresh prowl [] { policy := .strict }
    build prowl [] { policy := .strict } = .ok s ∧ ∃ mid,
      s.Session [.step, .step]
        [(.step (.ok (.executed ⟨.output, [.immediate]⟩)), mid),
          (.step (.error (.memory (.outOfRange 8192 8192))), { mid with state := .errored })] ∧
      (s.withPolicy .grow).Session [.step]
        [(.step (.ok (.executed ⟨.output, [.immediate]⟩)), mid.withPolicy .grow)] := by
  intro s
  have hbuild : build prowl [] { policy := .strict } = .ok s :=
    build_eq_ok_iff.mpr ⟨by decide, by decide, rfl⟩
  have hprowls : s.Prowls := ⟨rfl, Memory.size_image .., fun n hn => Array.getElem?_append_left hn⟩
  obtain ⟨mid, hsession⟩ := hprowls.session rfl rfl
  obtain ⟨_, htake, _⟩ := (session_strict_eq_grow prowl [] {}).2 s hbuild
  refine ⟨hbuild, mid, hsession, htake _ _ 1 hsession ?_⟩
  intro event hevent
  obtain rfl := List.mem_singleton.mp hevent
  exact id

end Prowl

end Machine

end Intcode
