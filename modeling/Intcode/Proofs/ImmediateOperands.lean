import Intcode.Proofs.Guards
import Intcode.Proofs.InstructionWords
import Mathlib.Tactic.LinearCombination
set_option autoImplicit false

/-!
Operands moved into the instruction. A parameter that is read from a cell may be made immediate, with the
value that the cell holds: one digit of the instruction word changes and one cell after it, and the step does
what it did, as long as no other parameter is read from these two cells. The target may be one of them.
-/
namespace Intcode

def Cell.setDigit (w : Cell) (n d : Nat) : Cell := Int64.ofInt (w.toInt + ((d : Int) - w.digit n) * 10 ^ n)

section Digits
variable {w : Cell} {n d : Nat}

theorem digit_of_parts {low high : Nat} (hlow : low < 10 ^ n) (hd : d < 10) (j : Nat) :
    (low + 10 ^ n * (d + 10 * high)) / 10 ^ j % 10 =
      if j = n then d else if j < n then low / 10 ^ j % 10 else high / 10 ^ (j - n - 1) % 10 := by
  obtain hj | rfl | hj := Nat.lt_trichotomy j n
  -- Below the digit, what is added is a multiple of the next power of ten; above it, it is divided off.
  · obtain ⟨i, rfl⟩ : ∃ i, n = j + 1 + i := ⟨n - j - 1, by omega⟩
    have hupper : 10 ^ (j + 1 + i) * (d + 10 * high) = 10 ^ j * (10 * (10 ^ i * (d + 10 * high))) := by ring
    rw [if_neg (by omega), if_pos hj, hupper, Nat.add_mul_div_left _ _ (by positivity),
      Nat.add_mul_mod_self_left]
  · rw [if_pos rfl, Nat.add_mul_div_left _ _ (by positivity), Nat.div_eq_of_lt hlow]
    omega
  · obtain ⟨i, rfl⟩ : ∃ i, j = n + 1 + i := ⟨j - n - 1, by omega⟩
    have hrest : n + 1 + i - n - 1 = i := by omega
    have hshift : (d + 10 * high) / 10 = high := by omega
    rw [if_neg (by omega), if_neg (by omega), hrest, Nat.pow_add, Nat.pow_add, ← Nat.div_div_eq_div_mul,
      ← Nat.div_div_eq_div_mul, Nat.add_mul_div_left _ _ (by positivity), Nat.div_eq_of_lt hlow, Nat.zero_add,
      pow_one, hshift]

theorem parts_of_digit (x n : Nat) : x = x % 10 ^ n + 10 ^ n * (x / 10 ^ n % 10 + 10 * (x / 10 ^ n / 10)) := by
  rw [Nat.mod_add_div, Nat.mod_add_div]

theorem toInt_setDigit (hw : 0 ≤ w.toInt)
    (hfits : w.toInt + ((d : Int) - w.digit n) * 10 ^ n ≤ Cell.greatest) :
    (w.setDigit n d).toInt =
      (w.toInt.toNat % 10 ^ n + 10 ^ n * (d + 10 * (w.toInt.toNat / 10 ^ n / 10)) : Nat) := by
  obtain ⟨x, hx⟩ := Int.eq_ofNat_of_zero_le hw
  have hparts : (x : Int) = (x % 10 ^ n + 10 ^ n * (x / 10 ^ n % 10 + 10 * (x / 10 ^ n / 10)) : Nat) :=
    congrArg Nat.cast (parts_of_digit x n)
  -- The difference of the two digits is all that is added, so nothing has to be carried.
  have hvalue : w.toInt + ((d : Int) - w.digit n) * 10 ^ n =
      (x % 10 ^ n + 10 ^ n * (d + 10 * (x / 10 ^ n / 10)) : Nat) := by
    rw [Cell.digit, hx, Int.toNat_natCast]
    push_cast at hparts ⊢
    linear_combination hparts
  rw [hvalue] at hfits
  unfold Cell.greatest at hfits
  rw [Cell.setDigit, hvalue, hx, Int.toNat_natCast]
  exact Int64.toInt_ofInt_of_le (by omega) (by omega)

theorem digit_setDigit (hw : 0 ≤ w.toInt) (hd : d < 10)
    (hfits : w.toInt + ((d : Int) - w.digit n) * 10 ^ n ≤ Cell.greatest) (j : Nat) :
    (w.setDigit n d).digit j = if j = n then d else w.digit j := by
  have hlow : w.toInt.toNat % 10 ^ n < 10 ^ n := Nat.mod_lt _ (by positivity)
  have hold : w.digit j = _ := congrArg (· / 10 ^ j % 10) (parts_of_digit w.toInt.toNat n)
  have hmod : w.toInt.toNat / 10 ^ n % 10 < 10 := Nat.mod_lt _ (by decide)
  rw [digit_of_parts hlow hmod j] at hold
  rw [Cell.digit, toInt_setDigit hw hfits, Int.toNat_natCast, digit_of_parts hlow hd, hold]
  split <;> rfl

/-- The largest cell has greater digits than 1 where the modes of an instruction stand. -/
theorem setDigit_one_fits {k : Nat} (hk : k < 3) (w : Cell) :
    w.toInt + ((1 : Int) - w.digit (k + 2)) * 10 ^ (k + 2) ≤ Cell.greatest := by
  have hle := w.toInt_le_greatest
  unfold Cell.greatest at hle ⊢
  rw [Cell.digit]
  obtain rfl | rfl | rfl : k = 0 ∨ k = 1 ∨ k = 2 := by omega
  all_goals
    simp only [Nat.reduceAdd, Nat.reducePow, Int.reducePow]
    omega

end Digits

section Decoding
variable {w : Cell} {op : Opcode} {i : Instruction} {k : Nat}

theorem Opcode.lt_three {op : Opcode} (hk : k < op.arity) : k < 3 := Nat.lt_of_lt_of_le hk op.arity_le

theorem names_setDigit (h : w.Names op) (hk : k < 3) : (w.setDigit (k + 2) 1).Names op := by
  obtain ⟨hpos, hcode⟩ := h
  have hw := toInt_setDigit hpos.le (setDigit_one_fits hk w)
  obtain ⟨x, hx⟩ := Int.eq_ofNat_of_zero_le hpos.le
  rw [Cell.Names, hw, ← hcode, hx, Int.toNat_natCast]
  obtain rfl | rfl | rfl : k = 0 ∨ k = 1 ∨ k = 2 := by omega
  all_goals
    simp only [Nat.reduceAdd, Nat.reducePow]
    omega

def Instruction.withImmediate (i : Instruction) (k : Nat) : Instruction :=
  { i with modes := i.modes.set k .immediate }

theorem modeAt_withImmediate (hk : k < i.modes.length) (j : Nat) :
    (i.withImmediate k).modeAt j = if j = k then .immediate else i.modeAt j := by
  simp only [Instruction.modeAt, Instruction.withImmediate, List.getD_eq_getElem?_getD, List.getElem?_set]
  by_cases hj : k = j
  · subst hj
    simp [hk]
  · simp [hj, Ne.symm hj]

theorem decode_setDigit (h : decode w = .ok i) (hk : k < i.opcode.arity) (ha : i.opcode.access k = .read) :
    decode (w.setDigit (k + 2) 1) = .ok (i.withImmediate k) := by
  obtain ⟨hnames, hlength, hmodes⟩ := decode_eq_ok_iff_digits.mp h
  have hdigit := digit_setDigit hnames.1.le (by decide) (setDigit_one_fits (Opcode.lt_three hk) w)
  refine decode_eq_ok_iff_digits.mpr ⟨names_setDigit hnames (Opcode.lt_three hk), ?_, ?_⟩
  · simpa [Instruction.withImmediate] using hlength
  · intro j hj
    rw [hdigit, modeAt_withImmediate (hlength ▸ hk)]
    by_cases hjk : j = k
    · subst hjk
      have htarget : i.opcode.target? ≠ some j := by
        rw [ne_eq, ← Opcode.access_eq_write_iff, ha]
        decide
      simp only [if_true]
      exact ⟨⟨.inr (.inl rfl), fun ht => absurd ht htarget⟩, rfl⟩
    · have hother : j + 2 ≠ k + 2 := by omega
      rw [if_neg hjk, if_neg hother]
      exact hmodes j hj

end Decoding

/-- The two memories have the same addresses. -/
structure Memory.SameShape (b a : Memory) : Prop where
  size : b.size = a.size
  policy : b.policy = a.policy
  limit : b.limit = a.limit

namespace Memory.SameShape

variable {a b : Memory} {address : Nat} {value : Cell}

theorem store_left (h : b.SameShape a) (hin : address < a.size) : (b.store address value).SameShape a := by
  refine ⟨?_, h.policy, h.limit⟩
  rw [size_store, h.size]
  omega

theorem store (h : b.SameShape a) (address : Nat) (value value' : Cell) :
    (b.store address value).SameShape (a.store address value') := by
  refine ⟨?_, h.policy, h.limit⟩
  rw [size_store, size_store, h.size]

theorem checkWrite (h : b.SameShape a) (address : Nat) : b.checkWrite address = a.checkWrite address := by
  simp only [Memory.checkWrite, h.size, h.policy, h.limit]

theorem read (h : b.SameShape a) (htape : b.tape address = a.tape address) :
    b.read address = a.read address := by
  have hreadable : b.Readable address ↔ a.Readable address := by
    simp only [Readable, h.size, h.policy, h.limit]
  have hrefusal : b.refusal address = a.refusal address := by
    simp only [refusal, h.size, h.policy, h.limit]
  simp only [read_eq, hreadable, hrefusal, htape]

end Memory.SameShape

theorem Effect.onMemory_sameShape {b a : Memory} (h : b.SameShape a) (e : Effect) :
    (e.onMemory b).SameShape (e.onMemory a) := by
  unfold Effect.onMemory
  cases e.written? with
  | none => exact h
  | some cell => exact h.store ..

theorem Effect.tape_onMemory {b a : Memory} {e : Effect} {address : Nat}
    (h : b.tape address = a.tape address ∨ ∃ v, e.written? = some (address, v)) :
    (e.onMemory b).tape address = (e.onMemory a).tape address := by
  unfold Effect.onMemory
  obtain h | ⟨v, hv⟩ := h
  · cases e.written? with
    | none => exact h
    | some cell => simp only [Memory.tape_store, h]
  · simp only [hv, Memory.tape_store, if_true]

namespace Machine

section Effects
variable {m m' : Machine} {f f' : Fetched} {k : Nat}

theorem operand_congr (hpc : f'.pc = f.pc) (hregs : m'.regs = m.regs)
    (hmode : f'.instruction.mode k = f.instruction.mode k)
    (hraw : m'.mem.read (f.pc + 1 + k) = m.mem.read (f.pc + 1 + k)) :
    m'.operand f' k = m.operand f k := by
  simp only [operand, hpc, hregs, hmode, hraw]

theorem lt_arity_of_operand {o : Operand} (h : m.operand f k = .ok o) : k < f.instruction.opcode.arity := by
  by_contra hk
  simp [operand, Instruction.mode, hk, bind, Except.bind] at h

theorem readParam_congr (hoperand : m'.operand f' k = m.operand f k)
    (hread : ∀ u, m.operand f k = .ok (.address u) → m'.mem.read u.toNat = m.mem.read u.toNat) :
    m'.readParam f' k = m.readParam f k := by
  rw [readParam, readParam, hoperand]
  cases ho : m.operand f k with
  | error e => rfl
  | ok o =>
    cases o with
    | value v => rfl
    | address u => exact congrArg (Except.mapError MachineError.memory) (hread u ho)

theorem target_congr (hoperand : m'.operand f' k = m.operand f k)
    (haddress : ∀ o, m.operand f k = .ok o → ∃ u, o = .address u ∧
      m'.mem.checkWrite u.toNat = m.mem.checkWrite u.toNat) :
    m'.target f' k = m.target f k := by
  rw [target, target, hoperand]
  cases ho : m.operand f k with
  | error e => rfl
  | ok o =>
    obtain ⟨u, rfl, hu⟩ := haddress o ho
    simp only [bind, Except.bind, hu]

theorem effect_congr (hop : f'.instruction.opcode = f.instruction.opcode) (hinput : m'.input = m.input)
    (hread : ∀ k < f.instruction.opcode.arity, f.instruction.opcode.access k = .read →
      m'.readParam f' k = m.readParam f k)
    (htarget : ∀ k, f.instruction.opcode.target? = some k → m'.target f' k = m.target f k) :
    m'.effect f' = m.effect f := by
  unfold effect
  rw [hop, hinput]
  cases h : f.instruction.opcode with
  | add | multiply | lessThan | equals =>
    simp only [combine, hread 0 (by rw [h]; decide) (by rw [h]; decide),
      hread 1 (by rw [h]; decide) (by rw [h]; decide), htarget 2 (by rw [h]; rfl)]
  | jumpIfTrue | jumpIfFalse =>
    simp only [branch, hread 0 (by rw [h]; decide) (by rw [h]; decide),
      hread 1 (by rw [h]; decide) (by rw [h]; decide)]
  | output | adjustRelativeBase => simp only [hread 0 (by rw [h]; decide) (by rw [h]; decide)]
  | input => simp only [htarget 0 (by rw [h]; rfl)]
  | halt => rfl

end Effects

/-- The machines differ at most in what their memories hold, and in programs and traces. -/
structure Resembles (b a : Machine) : Prop where
  state : b.state = a.state
  regs : b.regs = a.regs
  steps : b.steps = a.steps
  input : b.input = a.input
  output : b.output = a.output
  mem : b.mem.SameShape a.mem

def Writes (m : Machine) (f : Fetched) (address : Nat) : Prop :=
  ∃ e v, m.effect f = .ok (some e) ∧ e.written? = some (address, v)

section Steps
variable {b a : Machine} {f g : Fetched}

theorem resembles_withMemory {m : Machine} {mem : Memory} (h : mem.SameShape m.mem) :
    (m.withMemory mem).Resembles m :=
  ⟨rfl, rfl, rfl, rfl, rfl, h⟩

theorem Resembles.withState (h : b.Resembles a) (s : State) :
    { b with state := s }.Resembles { a with state := s } :=
  ⟨rfl, h.regs, h.steps, h.input, h.output, h.mem⟩

theorem Resembles.commit (h : b.Resembles a) (hop : g.instruction.opcode = f.instruction.opcode) (e : Effect) :
    (b.commit g e).Resembles (a.commit f e) := by
  have hmem : (b.commit g e).mem.SameShape (a.commit f e).mem := by
    rw [commit_mem, commit_mem]
    exact e.onMemory_sameShape h.mem
  have hwidth : g.instruction.width = f.instruction.width := congrArg Opcode.width hop
  rw [commit_eq, commit_eq] at hmem ⊢
  cases e <;> simp only [apply, h.regs, h.steps, h.input, h.output, hwidth] <;>
    exact ⟨rfl, rfl, rfl, rfl, rfl, hmem⟩

theorem Resembles.step (h : b.Resembles a) (ht : a.state.isTerminal = false) (hf : a.fetch = .ok f)
    (hg : b.fetch = .ok g) (hop : g.instruction.opcode = f.instruction.opcode)
    (hhalt : f.instruction.opcode ≠ .halt) (he : b.effect g = a.effect f) :
    ((∃ e, a.step.1 = .error e ∧ b.step.1 = .error e) ∨
      (a.step.1 = .ok .blocked ∧ b.step.1 = .ok .blocked) ∨
      a.step.1 = .ok (.executed f.instruction) ∧ b.step.1 = .ok (.executed g.instruction)) ∧
    b.step.2.Resembles a.step.2 ∧
    ∀ address, b.mem.tape address = a.mem.tape address ∨ a.Writes f address →
      b.step.2.mem.read address = a.step.2.mem.read address := by
  have ht' : b.state.isTerminal = false := h.state ▸ ht
  cases ha : a.effect f with
  | error e =>
    rw [step_of_effect_error ht hf ha, step_of_effect_error ht' hg (he.trans ha)]
    refine ⟨.inl ⟨e, rfl, rfl⟩, h.withState .errored, ?_⟩
    rintro address (htape | ⟨_, _, hsome, _⟩)
    · exact h.mem.read htape
    · rw [ha] at hsome
      cases hsome
  | ok o =>
    cases o with
    | none =>
      rw [step_of_starved ht hf ha, step_of_starved ht' hg (he.trans ha)]
      refine ⟨.inr (.inl ⟨rfl, rfl⟩), h.withState .blocked, ?_⟩
      rintro address (htape | ⟨_, _, hsome, _⟩)
      · exact h.mem.read htape
      · rw [ha] at hsome
        cases hsome
    | some e =>
      have hne : e ≠ .halt := by
        rintro rfl
        have hplanned := ((effect_eq_some_iff (fetch_eq_ok_iff.mp hf).2.2.2).mp ha).2.2
        exact hhalt (planned_eq_halt_iff.mp hplanned.symm)
      rw [step_of_effect ht hf ha, step_of_effect ht' hg (he.trans ha), if_neg hne, if_neg hne]
      refine ⟨.inr (.inr ⟨rfl, rfl⟩), h.commit hop e, ?_⟩
      intro address hsame
      refine (h.commit hop e).mem.read ?_
      rw [commit_mem, commit_mem]
      refine Effect.tape_onMemory (hsame.imp_right ?_)
      rintro ⟨_, v, hsome, hv⟩
      rw [ha] at hsome
      cases hsome
      exact ⟨v, hv⟩

end Steps

/-- Parameter `k` of the instruction is read from a cell that holds `v`, and no other parameter is read from the
cell of the instruction word or from the parameter's own. -/
structure Loads (m : Machine) (f : Fetched) (k : Nat) (v : Cell) : Prop where
  fetched : m.fetch = .ok f
  inside : f.pc + f.instruction.width ≤ m.mem.size
  param : k < f.instruction.opcode.arity
  access : f.instruction.opcode.access k = .read
  cell : ∃ u, m.operand f k = .ok (.address u) ∧ m.mem.read u.toNat = .ok v
  apart : ∀ j, j ≠ k → f.instruction.opcode.access j = .read → ∀ u, m.operand f j = .ok (.address u) →
    u.toNat ≠ f.pc ∧ u.toNat ≠ f.pc + 1 + k

end Machine

def Fetched.withImmediate (f : Fetched) (k : Nat) : Fetched where
  pc := f.pc
  word := f.word.setDigit (k + 2) 1
  instruction := f.instruction.withImmediate k

namespace Machine

def withImmediate (m : Machine) (f : Fetched) (k : Nat) (v : Cell) : Machine :=
  m.withMemory ((m.mem.store f.pc (f.withImmediate k).word).store (f.pc + 1 + k) v)

section Immediate
variable {m : Machine} {f : Fetched} {k : Nat} {v : Cell}

theorem tape_withImmediate (address : Nat) : (m.withImmediate f k v).mem.tape address =
    if address = f.pc + 1 + k then v else if address = f.pc then (f.withImmediate k).word
    else m.mem.tape address := by
  simp only [withImmediate, withMemory, Memory.tape_store]

namespace Loads

theorem decodes (h : m.Loads f k v) : decode f.word = .ok f.instruction := (fetch_eq_ok_iff.mp h.fetched).2.2.2

theorem last_lt_size (h : m.Loads f k v) : f.pc + 1 + k < m.mem.size := by
  have hparam := h.param
  have hinside := h.inside
  rw [Instruction.width, Opcode.width] at hinside
  omega

theorem resembles (h : m.Loads f k v) : (m.withImmediate f k v).Resembles m := by
  have hlast := h.last_lt_size
  have hfirst : (m.mem.store f.pc (f.withImmediate k).word).SameShape m.mem :=
    Memory.SameShape.store_left ⟨rfl, rfl, rfl⟩ (by omega)
  exact resembles_withMemory (hfirst.store_left hlast)

theorem read (h : m.Loads f k v) {address : Nat} (hpc : address ≠ f.pc) (hk : address ≠ f.pc + 1 + k) :
    (m.withImmediate f k v).mem.read address = m.mem.read address := by
  refine h.resembles.mem.read ?_
  rw [tape_withImmediate, if_neg hk, if_neg hpc]

theorem fetch (h : m.Loads f k v) : (m.withImmediate f k v).fetch = .ok (f.withImmediate k) := by
  obtain ⟨hpc, hin, _, hd⟩ := fetch_eq_ok_iff.mp h.fetched
  refine fetch_eq_ok_iff.mpr ⟨hpc, ?_, ?_, decode_setDigit hd h.param h.access⟩
  · rw [h.resembles.mem.size]
    exact hin
  · have hne : f.pc ≠ f.pc + 1 + k := by omega
    exact ((tape_withImmediate f.pc).trans (by rw [if_neg hne, if_pos rfl])).symm

theorem modeAt (h : m.Loads f k v) (j : Nat) :
    (f.withImmediate k).instruction.modeAt j = if j = k then .immediate else f.instruction.modeAt j := by
  have hlength := (decode_eq_ok_iff.mp h.decodes).2.1
  exact modeAt_withImmediate (hlength ▸ h.param) j

theorem operand (h : m.Loads f k v) {j : Nat} (hj : j ≠ k) :
    (m.withImmediate f k v).operand (f.withImmediate k) j = m.operand f j := by
  refine operand_congr rfl h.resembles.regs ?_ (h.read (by omega) (by omega))
  rw [Instruction.mode, h.modeAt, if_neg hj]
  rfl

theorem readParam_self (h : m.Loads f k v) :
    (m.withImmediate f k v).readParam (f.withImmediate k) k = m.readParam f k := by
  obtain ⟨u, hu, hv⟩ := h.cell
  have hbefore : m.readParam f k = .ok v := by
    rw [Machine.readParam, hu]
    exact Fallible.mapError_eq_ok.mpr hv
  have hmode : (f.withImmediate k).instruction.modeAt k = .immediate := by rw [h.modeAt, if_pos rfl]
  have htape : (m.withImmediate f k v).mem.tape (f.pc + 1 + k) = v := by rw [tape_withImmediate, if_pos rfl]
  have hin : f.pc + 1 + k < (m.withImmediate f k v).mem.size := by
    rw [h.resembles.mem.size]
    exact h.last_lt_size
  have hwrite : f.instruction.opcode.access k ≠ .write := by rw [h.access]; decide
  rw [hbefore, readParam_eq_ok_iff (f := f.withImmediate k) h.param h.access, argument, if_pos hmode]
  exact ⟨⟨.inl hin, absurd hmode, fun _ => absurd hmode, fun hw => absurd hw hwrite⟩, htape.symm⟩

theorem readParam (h : m.Loads f k v) {j : Nat} (ha : f.instruction.opcode.access j = .read) :
    (m.withImmediate f k v).readParam (f.withImmediate k) j = m.readParam f j := by
  by_cases hj : j = k
  · rw [hj]
    exact h.readParam_self
  · refine readParam_congr (h.operand hj) fun u hu => ?_
    obtain ⟨hpc, hk⟩ := h.apart j hj ha u hu
    exact h.read hpc hk

theorem target (h : m.Loads f k v) {j : Nat} (ht : f.instruction.opcode.target? = some j) :
    (m.withImmediate f k v).target (f.withImmediate k) j = m.target f j := by
  have hj : j ≠ k := by
    rintro rfl
    have haccess := h.access
    rw [Opcode.access_eq_write_iff.mpr ht] at haccess
    cases haccess
  refine target_congr (h.operand hj) fun o ho => ?_
  obtain ⟨u, hu, _⟩ := operand_target h.decodes ht ho
  exact ⟨u, hu, h.resembles.mem.checkWrite u.toNat⟩

theorem effect (h : m.Loads f k v) :
    (m.withImmediate f k v).effect (f.withImmediate k) = m.effect f :=
  effect_congr rfl h.resembles.input (fun _ _ => h.readParam) fun _ => h.target

end Loads

/-- An operand may stand in the instruction just as well as in a cell. If the instruction is inside the memory
and its parameter `k` is read from a cell that holds `v`, then one digit of its word makes that parameter
immediate and no other, and with `v` for the parameter the step fails as it did, waits as it did or executes the
same opcode. The machines then resemble each other, and their memories read the same but for the two cells that
were changed, and at these too if the instruction writes there. Only no other parameter may be read from the two
cells. -/
theorem step_withImmediate (ht : m.state.isTerminal = false) (h : m.Loads f k v) :
    let twin := m.withImmediate f k v
    twin.fetch = .ok (f.withImmediate k) ∧
    (∀ n, (f.withImmediate k).word.digit n = if n = k + 2 then 1 else f.word.digit n) ∧
    ((∃ e, m.step.1 = .error e ∧ twin.step.1 = .error e) ∨
      (m.step.1 = .ok .blocked ∧ twin.step.1 = .ok .blocked) ∨
      ∃ i i', m.step.1 = .ok (.executed i) ∧ twin.step.1 = .ok (.executed i') ∧ i'.opcode = i.opcode ∧
        ∀ j, i'.modeAt j = if j = k then .immediate else i.modeAt j) ∧
    twin.step.2.Resembles m.step.2 ∧
    ∀ address, (address ≠ f.pc ∧ address ≠ f.pc + 1 + k) ∨ m.Writes f address →
      twin.step.2.mem.read address = m.step.2.mem.read address := by
  have hnames := (decode_eq_ok_iff_digits.mp h.decodes).1
  have hhalt : f.instruction.opcode ≠ .halt := by
    intro hop
    have hk := h.param
    rw [hop] at hk
    exact absurd hk (Nat.not_lt_zero k)
  obtain ⟨houtcome, hrest, hmem⟩ := h.resembles.step ht h.fetched h.fetch rfl hhalt h.effect
  have hfits := setDigit_one_fits (Opcode.lt_three h.param) f.word
  refine ⟨h.fetch, digit_setDigit hnames.1.le (by decide) hfits, ?_, hrest, ?_⟩
  · obtain herror | hblocked | ⟨hi, hi'⟩ := houtcome
    · exact .inl herror
    · exact .inr (.inl hblocked)
    · exact .inr (.inr ⟨_, _, hi, hi', rfl, h.modeAt⟩)
  · intro address hsame
    refine hmem address (hsame.imp_left ?_)
    rintro ⟨hpc, hk⟩
    rw [tape_withImmediate, if_neg hk, if_neg hpc]

/-- The first operand of the addition is its own word, and the sum goes where the operand's offset stands. -/
theorem step_withImmediate_self :
    let m : Machine := { ofMemory #[] [] ⟨#[1201, -5, 7, 1], .grow, 16⟩ with regs := ⟨0, 5⟩ }
    let f : Fetched := ⟨0, 1201, ⟨.add, [.relative, .immediate, .position]⟩⟩
    m.state.isTerminal = false ∧ m.Loads f 0 1201 ∧
      (m.withImmediate f 0 1201).mem.cells = #[1101, 1201, 7, 1] ∧
      (m.withImmediate f 0 1201).step.2.mem.read 1 = .ok 1208 := by
  intro m f
  have hd : decode 1201 = .ok f.instruction := by decide +kernel
  have hvalue : m.operand f 1 = .ok (.value 7) := Fallible.toOption_eq_some.mp (by decide +kernel)
  have hapart : ∀ j, j ≠ 0 → f.instruction.opcode.access j = .read → ∀ u, m.operand f j = .ok (.address u) →
      u.toNat ≠ f.pc ∧ u.toNat ≠ f.pc + 1 + 0 := by
    intro j hj ha u hu
    have hin : j < 3 := lt_arity_of_operand hu
    obtain rfl | rfl : j = 1 ∨ j = 2 := by omega
    · rw [hvalue] at hu
      cases hu
    · cases ha
  have h : m.Loads f 0 1201 :=
    { fetched := fetch_eq_ok_iff.mpr ⟨rfl, by decide, rfl, hd⟩
      inside := by decide
      param := by decide
      access := rfl
      cell := ⟨0, Fallible.toOption_eq_some.mp (by decide +kernel),
        Fallible.toOption_eq_some.mp (by decide +kernel)⟩
      apart := hapart }
  obtain ⟨_, _, _, _, hsame⟩ := step_withImmediate (m := m) rfl h
  refine ⟨rfl, h, by decide +kernel, ?_⟩
  rw [hsame 1 (.inr ⟨.store 1 1208, 1208, Fallible.toOption_eq_some.mp (by decide +kernel), rfl⟩)]
  exact Fallible.toOption_eq_some.mp (by decide +kernel)

end Immediate

end Machine

end Intcode
