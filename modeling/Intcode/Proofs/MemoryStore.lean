import Intcode.Proofs.Restart
import Mathlib.Data.List.Induction
set_option autoImplicit false

/-!
Memory as a store. What a read finds after any number of requests is told by the log of the requests
alone: the last value written since a program was last put back, else the program's cell, else a zero. The
row only matters past all of these, for which addresses can be reached and for the errors.
-/
namespace Intcode

namespace Memory

section InPlace
variable (m : Memory) (a : Nat) (v : Cell)

def makeRoom : Except MemoryError Unit × Memory :=
  if m.size ≤ a then
    match m.policy with
    | .grow =>
      if a < m.limit.toNat then
        if ceiling < a + 1 then (.error (.allocationFailed (a + 1)), m)
        else (.ok (), m.pad (a + 1 - m.size))
      else (.error (.limitExceeded a m.limit), m)
    | .strict => (.error (.outOfRange a m.size), m)
  else (.ok (), m)

/-- The row is lengthened first and then the cell is set; an error leaves whatever was done till then. -/
def writeInPlace : Except MemoryError Unit × Memory :=
  match m.makeRoom a with
  | (.ok (), roomy) => (.ok (), { roomy with cells := roomy.cells.setIfInBounds a v })
  | (.error e, changed) => (.error e, changed)

theorem makeRoom_eq : m.makeRoom a = (m.checkWrite a, match m.checkWrite a with
    | .ok () => m.pad (a + 1 - m.size)
    | .error _ => m) := by
  unfold makeRoom checkWrite
  by_cases h : a < m.size
  · have hpad : m.pad (a + 1 - m.size) = m := by
      have hnothing : a + 1 - m.size = 0 := by omega
      simp [pad, hnothing]
    simp only [h, Nat.not_le.mpr h, if_true, if_false, hpad]
  · simp only [h, Nat.not_lt.mp h, if_true, if_false]
    cases m.policy with
    | strict => rfl
    | grow =>
      by_cases hl : a < m.limit.toNat
      · by_cases hc : a + 1 ≤ ceiling
        · simp only [hl, hc, Nat.not_lt.mpr hc, if_true, if_false]
        · simp only [hl, hc, Nat.not_le.mp hc, if_true, if_false]
      · simp only [hl, if_false]

theorem writeInPlace_eq : m.writeInPlace a v = match m.write a v with
    | .ok after => (.ok (), after)
    | .error e => (.error e, m) := by
  simp only [writeInPlace, makeRoom_eq, write]
  cases hc : m.checkWrite a with
  | error e => rfl
  | ok u => rfl

end InPlace

inductive Request
  | read (address : Nat)
  | write (address : Nat) (value : Cell)
  | restore (program : Array Cell)

inductive Event
  | read (address : Nat) (answer : Except MemoryError Cell)
  | write (address : Nat) (value : Cell) (answer : Except MemoryError Unit)
  | restore (program : Array Cell)

def serve (m : Memory) : Request → Event × Memory
  | .read a => (.read a (m.read a), m)
  | .write a v => (.write a v (m.writeInPlace a v).1, (m.writeInPlace a v).2)
  | .restore program => (.restore program, m.restore program)

/-- The log has the last event first. -/
def serveAll (m : Memory) (requests : List Request) : List Event × Memory :=
  requests.foldl (fun done r => ((done.2.serve r).1 :: done.1, (done.2.serve r).2)) ([], m)

def lastWrite (a : Nat) : List Event → Option Cell
  | [] => none
  | .restore _ :: _ => none
  | .write b v (.ok ()) :: log => if b = a then some v else lastWrite a log
  | _ :: log => lastWrite a log

def lastProgram (program : Array Cell) : List Event → Array Cell
  | [] => program
  | .restore later :: _ => later
  | _ :: log => lastProgram program log

def held (program : Array Cell) (log : List Event) (a : Nat) : Option Cell :=
  (lastWrite a log).or (lastProgram program log)[a]?

def lengthAfter (n : Nat) : Event → Nat
  | .read _ _ => n
  | .write a _ (.ok ()) => max n (a + 1)
  | .write _ _ (.error _) => n
  | .restore program => max n program.size

/-- A memory as it is built for a program. Programs are rows of cells like any other, so none is longer
than `ceiling`. -/
inductive Founded (program : Array Cell) : Policy → Nat → Memory → Prop
  | sized {least limit : Count} {policy : Policy} {m : Memory} :
      build program least policy limit = .ok m →
        Founded program policy (max limit.toNat program.size) m
  | plain : program.size ≤ ceiling →
      Founded program .grow (max defaultLimit.toNat program.size) (ofProgram program)

section Laws
variable {program : Array Cell} {policy : Policy} {limit a b : Nat} {v : Cell} {m m₀ : Memory}
  {log : List Event} {r : Request}

theorem serve_cases (m : Memory) (r : Request) :
    (∃ a, m.serve r = (.read a (m.read a), m)) ∨
    (∃ a v, m.Writable a ∧ m.serve r = (.write a v (.ok ()), m.store a v)) ∨
    (∃ a v e, m.serve r = (.write a v (.error e), m)) ∨
    ∃ later, m.serve r = (.restore later, m.restore later) := by
  cases r with
  | read a => exact .inl ⟨a, rfl⟩
  | write a v =>
    simp only [serve, writeInPlace_eq]
    by_cases hw : m.Writable a
    · exact .inr (.inl ⟨a, v, hw, by rw [write_eq_ok hw]⟩)
    · obtain ⟨e, he⟩ := write_eq_error hw
      exact .inr (.inr (.inl ⟨a, v, e, by rw [he]⟩))
  | restore later => exact .inr (.inr (.inr ⟨later, rfl⟩))

/-- The memory is what the log says it is. -/
structure Bears (program : Array Cell) (policy : Policy) (limit : Nat) (log : List Event) (m : Memory) :
    Prop where
  policy : m.policy = policy
  limit : m.limit.toNat = limit
  tape : ∀ a, m.tape a = (held program log a).getD 0
  inside : ∀ a v, held program log a = some v → a < m.size
  fits : (lastProgram program log).size ≤ m.size

theorem Bears.serve (h : Bears program policy limit log m) (r : Request) :
    Bears program policy limit ((m.serve r).1 :: log) (m.serve r).2 := by
  obtain ⟨a, hs⟩ | ⟨a, v, _, hs⟩ | ⟨a, v, e, hs⟩ | ⟨later, hs⟩ := serve_cases m r
  · rw [hs]
    exact ⟨h.policy, h.limit, h.tape, h.inside, h.fits⟩
  · rw [hs]
    have hheld (b : Nat) : held program (.write a v (.ok ()) :: log) b =
        if b = a then some v else held program log b := by
      by_cases hb : b = a
      · simp [held, lastWrite, hb]
      · simp [held, lastWrite, lastProgram, hb, Ne.symm hb]
    refine ⟨h.policy, h.limit, ?_, ?_, ?_⟩
    · intro b
      rw [tape_store, hheld]
      split
      · rfl
      · exact h.tape b
    · intro b w hw
      rw [size_store]
      rw [hheld] at hw
      split at hw
      · omega
      · have hin := h.inside b w hw
        omega
    · have hfits := h.fits
      rw [size_store]
      simp only [lastProgram]
      omega
  · rw [hs]
    exact ⟨h.policy, h.limit, h.tape, h.inside, h.fits⟩
  · rw [hs]
    have hheld (b : Nat) : held program (.restore later :: log) b = later[b]? := rfl
    refine ⟨h.policy, h.limit, ?_, ?_, ?_⟩
    · intro b
      rw [tape_restore, hheld, Array.getD_eq_getD_getElem?]
    · intro b w hw
      rw [hheld] at hw
      obtain ⟨hb, _⟩ := Array.getElem?_eq_some_iff.mp hw
      rw [size_restore]
      omega
    · rw [size_restore]
      exact Nat.le_max_left ..

theorem Bears.of_image {least : Nat} (hpolicy : m.policy = policy) (hlimit : m.limit.toNat = limit)
    (hcells : m.cells = image program least) : Bears program policy limit [] m := by
  have hsize : m.size = max program.size least := by rw [size, hcells, size_image]
  refine ⟨hpolicy, hlimit, ?_, ?_, ?_⟩
  · intro a
    rw [Memory.tape, hcells, getD_image, Array.getD_eq_getD_getElem?]
    rfl
  · intro a v hv
    obtain ⟨ha, _⟩ := Array.getElem?_eq_some_iff.mp (show program[a]? = some v from hv)
    omega
  · rw [hsize]
    exact Nat.le_max_left ..

theorem Founded.bears (h : Founded program policy limit m) : Bears program policy limit [] m := by
  cases h with
  | plain hceiling => exact .of_image rfl (Count.toNat_max_ofNat hceiling _) rfl
  | sized h =>
    simp only [build] at h
    split at h
    · cases h
    · rename_i hroom
      cases h
      exact .of_image rfl (Count.toNat_max_ofNat (by omega) _) rfl

theorem Bears.serveAll (h : Bears program policy limit [] m₀) (requests : List Request)
    (hrun : m₀.serveAll requests = (log, m)) : Bears program policy limit log m := by
  induction requests using List.reverseRecOn generalizing log m with
  | nil =>
    cases hrun
    exact h
  | append_singleton earlier r ih =>
    unfold Memory.serveAll at hrun ih
    rw [List.foldl_append] at hrun
    cases hrun
    exact (ih rfl).serve r

theorem refusal_store (hw : m.Writable a) (v : Cell) (b : Nat) : (m.store a v).refusal b = m.refusal b := by
  have hpolicy : (m.store a v).policy = m.policy := rfl
  rw [refusal, refusal, hpolicy]
  cases hp : m.policy with
  | grow => rfl
  | strict =>
    have hin : a < m.size := by simpa [hp] using writable_iff.mp hw
    have hsize : (m.store a v).size = m.size := by
      rw [size_store]
      omega
    rw [hsize]

theorem readable_store (hw : m.Writable a) : (m.store a v).Readable b ↔ m.Readable b := by
  have hpolicy : (m.store a v).policy = m.policy := rfl
  have hlimit : (m.store a v).limit = m.limit := rfl
  simp only [Readable, size_store, hpolicy, hlimit]
  obtain ⟨hin | ⟨hg, hl⟩, _⟩ := hw
  · rw [Nat.max_eq_left hin]
  · simp only [hg, true_and]
    omega

theorem read_store_of_ne (hw : m.Writable a) (hb : b ≠ a) : (m.store a v).read b = m.read b := by
  rw [read_eq, read_eq, tape_store, if_neg hb, refusal_store hw]
  simp only [readable_store hw]

theorem Bears.read_eq (h : Bears program policy limit log m) (a : Nat) :
    m.read a = match held program log a with
      | some v => .ok v
      | none => if a < m.size ∨ policy = .grow ∧ a < limit then .ok 0 else .error (m.refusal a) := by
  have hreach : m.Readable a ↔ a < m.size ∨ policy = .grow ∧ a < limit := by
    rw [Readable, h.policy, h.limit]
  cases hv : held program log a with
  | some v =>
    refine read_eq_ok_iff.mpr ⟨.inl (h.inside a v hv), ?_⟩
    rw [h.tape, hv]
    rfl
  | none =>
    have hzero : m.tape a = 0 := by
      rw [h.tape, hv]
      rfl
    simp only [Memory.read_eq, hreach, hzero]

theorem size_serve (m : Memory) (r : Request) : (m.serve r).2.size = lengthAfter m.size (m.serve r).1 := by
  obtain ⟨a, hs⟩ | ⟨a, v, _, hs⟩ | ⟨a, v, e, hs⟩ | ⟨later, hs⟩ := serve_cases m r
  · rw [hs]
    rfl
  · rw [hs]
    exact size_store ..
  · rw [hs]
    rfl
  · rw [hs]
    exact (size_restore ..).trans (Nat.max_comm ..)

/-- Whatever was asked of a memory before, a read finds what the log says is held there, or a zero, or one
of two errors. A write is carried out and seen in its own place only, or it is refused and changes nothing.
The row gets longer by writes past its end and by programs that do not fit into it, and never shorter. -/
theorem zero_default_store (hfounded : Founded program policy limit m₀) (requests : List Request)
    (hrun : m₀.serveAll requests = (log, m)) :
    (∀ a, m.read a = match held program log a with
      | some v => .ok v
      | none => if a < m.size ∨ policy = .grow ∧ a < limit then .ok 0 else .error (m.refusal a)) ∧
    (∀ a v,
      if a < m.size ∨ policy = .grow ∧ a < limit ∧ a + 1 ≤ ceiling then
        ∃ after, m.write a v = .ok after ∧ m.writeInPlace a v = (.ok (), after) ∧
          ∀ b, b ≠ a → after.read b = m.read b
      else ∃ e, m.write a v = .error e ∧ m.writeInPlace a v = (.error e, m)) ∧
    (∀ r, (m.serve r).2.size = lengthAfter m.size (m.serve r).1) ∧
    m.policy = policy ∧ m.limit.toNat = limit := by
  have hbears := hfounded.bears.serveAll requests hrun
  refine ⟨hbears.read_eq, ?_, size_serve m, hbears.policy, hbears.limit⟩
  intro a v
  have hgrant : m.Writable a ↔ a < m.size ∨ policy = .grow ∧ a < limit ∧ a + 1 ≤ ceiling := by
    rw [writable_iff, hbears.policy, hbears.limit]
  rw [writeInPlace_eq]
  split
  · rename_i hin
    have hw := hgrant.mpr hin
    have hwrite := write_eq_ok hw v
    exact ⟨m.store a v, hwrite, by rw [hwrite], fun b hb => read_store_of_ne hw hb⟩
  · rename_i hout
    obtain ⟨e, he⟩ := write_eq_error (mt hgrant.mp hout)
    exact ⟨e, he v, by rw [he v]⟩

end Laws

/-- The row starts with three cells and may grow to six. A write lengthens it, another is refused, and a
program that is longer than the limit lengthens it again. -/
theorem zero_default_store_small :
    ∃ m₀ log m, build #[5, 6] 3 .grow 6 = .ok m₀ ∧
      m₀.serveAll [.write 4 9, .read 3, .write 6 1, .restore #[1, 2, 3, 4, 5, 6, 7], .write 0 8] =
        (log, m) ∧
      m.size = 7 ∧ m.read 0 = .ok 8 ∧ m.read 4 = .ok 5 ∧ m.read 7 = .error (.limitExceeded 7 6) ∧
      (∃ e, m.write 7 1 = .error e ∧ m.writeInPlace 7 1 = (.error e, m)) ∧
      ∃ after, m.write 6 1 = .ok after ∧ after.read 7 = m.read 7 := by
  refine ⟨_, _, _, rfl, rfl, ?_⟩
  have hbuild : build #[5, 6] 3 .grow 6 = .ok ⟨#[5, 6, 0], .grow, 6⟩ := rfl
  obtain ⟨hread, hwrite, _, _, _⟩ := zero_default_store (.sized hbuild)
    [.write 4 9, .read 3, .write 6 1, .restore #[1, 2, 3, 4, 5, 6, 7], .write 0 8] rfl
  refine ⟨rfl, hread 0, hread 4, hread 7, hwrite 7 1, ?_⟩
  obtain ⟨after, hdone, _, helse⟩ := hwrite 6 1
  exact ⟨after, hdone, helse 7 (by decide)⟩

end Memory

end Intcode
