import Intcode.Proofs.Twins
set_option autoImplicit false

/-!
A step without defences. `Machine.step?` has no answer where an index is out of range or past the end of what
it indexes, where a parameter is asked for that the instruction does not have, and where a target turns out
to be a value. It never comes to such a place: as long as the memory is no larger than what can be allocated,
it is the step itself.
-/
namespace Intcode

/-- A computation that may fail with an error and, apart from that, may have no answer. -/
abbrev Guarded (α : Type) := ExceptT MachineError Option α

namespace Guarded

variable {α β : Type}

def sure (x : Except MachineError α) : Guarded α := some x

theorem sure_ok_bind (a : α) (g : α → Guarded β) : sure (.ok a) >>= g = g a := rfl

theorem sure_bind (x : Except MachineError α) (g : α → Except MachineError β) :
    (sure x >>= fun a => sure (g a)) = sure (x >>= g) := by
  cases x <;> rfl

theorem sure_map (x : Except MachineError α) (g : α → β) : g <$> sure x = sure (g <$> x) := by
  cases x <;> rfl

def need (p : Prop) [Decidable p] : Guarded Unit := if p then sure (.ok ()) else none

theorem need_bind {p : Prop} [Decidable p] (h : p) (g : Unit → Guarded β) : need p >>= g = g () := by
  rw [need, if_pos h]
  rfl

end Guarded

namespace Machine

open Guarded

def operand? (m : Machine) (f : Fetched) (k : Nat) : Guarded Operand := do
  need (k < f.instruction.opcode.arity ∧ k < f.instruction.modes.length)
  need (Count.Holds (f.pc + 1 + k))
  let raw ← sure ((m.mem.read (f.pc + 1 + k)).mapError .memory)
  sure ((m.regs.resolve raw (f.instruction.modeAt k)).mapError .memory)

def readParam? (m : Machine) (f : Fetched) (k : Nat) : Guarded Cell := do
  match ← m.operand? f k with
  | .address a => sure ((m.mem.read a.toNat).mapError .memory)
  | .value v => return v

def target? (m : Machine) (f : Fetched) (k : Nat) : Guarded Nat := do
  match ← m.operand? f k with
  | .address a => do
    need (Count.Holds (a.toNat + 1))
    sure ((m.mem.checkWrite a.toNat).mapError .memory)
    return a.toNat
  | .value _ => none

def combine? (m : Machine) (f : Fetched) (op : Cell → Cell → Cell) : Guarded Effect := do
  let a ← m.readParam? f 0
  let b ← m.readParam? f 1
  let address ← m.target? f 2
  return .store address (op a b)

def branch? (m : Machine) (f : Fetched) (test : Cell → Bool) : Guarded Effect := do
  let a ← m.readParam? f 0
  let goal ← m.readParam? f 1
  return if test a then .jump goal else .pass

def effect? (m : Machine) (f : Fetched) : Guarded (Option Effect) :=
  match f.instruction.opcode with
  | .add => some <$> m.combine? f (· + ·)
  | .multiply => some <$> m.combine? f (· * ·)
  | .lessThan => some <$> m.combine? f fun a b => if a < b then 1 else 0
  | .equals => some <$> m.combine? f fun a b => if a = b then 1 else 0
  | .jumpIfTrue => some <$> m.branch? f (· ≠ 0)
  | .jumpIfFalse => some <$> m.branch? f (· = 0)
  | .input => match m.input with
    | [] => return none
    | value :: _ => do
      let address ← m.target? f 0
      return some (.accept address value)
  | .output => do return some (.emit (← m.readParam? f 0))
  | .adjustRelativeBase => do return some (.shift (← m.readParam? f 0))
  | .halt => return some .halt

/-- The step, if every index it uses is in range. The record of an instruction looks at all its parameters
before they are worked out, and a cell that is written has to be there once the memory has grown. -/
def step? (m : Machine) : Option (Except MachineError Step × Machine) :=
  if m.state.isTerminal then some (.error (.notRunning m.state), m)
  else match m.fetch with
    | .error e => some (.error e, { m with state := .errored })
    | .ok f => do
      guard (Cell.Holds f.pc ∧ f.instruction.opcode.arity ≤ 3)
      guard (∀ k < f.instruction.modes.length, Count.Holds (f.pc + 1 + k))
      match ← (m.effect? f).run with
      | .error e => some (.error e, { m with state := .errored })
      | .ok none => some (.ok .blocked, { m with state := .blocked })
      | .ok (some e) => do
        guard (∀ cell ∈ e.written?, cell.1 < (e.onMemory m.mem).size)
        some (.ok (if e = .halt then .halted else .executed f.instruction), m.commit f e)

section Answers
variable {m : Machine} {f : Fetched} {k : Nat}

theorem operand?_eq (hlength : f.instruction.modes.length = f.instruction.opcode.arity)
    (hk : k < f.instruction.opcode.arity) (hholds : Count.Holds (f.pc + 1 + k)) :
    m.operand? f k = sure (m.operand f k) := by
  rw [operand?, need_bind ⟨hk, hlength ▸ hk⟩, need_bind hholds, sure_bind, operand, Instruction.mode,
    if_pos hk]
  rfl

theorem readParam?_eq (h : m.operand? f k = sure (m.operand f k)) :
    m.readParam? f k = sure (m.readParam f k) := by
  rw [readParam?, readParam, h, ← sure_bind]
  refine congrArg _ (funext fun o => ?_)
  cases o <;> rfl

theorem target?_eq (h : m.operand? f k = sure (m.operand f k))
    (haddress : ∀ o, m.operand f k = .ok o → ∃ u, o = .address u ∧ Count.Holds (u.toNat + 1)) :
    m.target? f k = sure (m.target f k) := by
  rw [target?, target, h]
  cases ho : m.operand f k with
  | error e => rfl
  | ok o =>
    obtain ⟨u, rfl, hu⟩ := haddress o ho
    rw [sure_ok_bind]
    simp only [need_bind hu]
    exact sure_bind _ _

variable (hread : ∀ k < f.instruction.opcode.arity, m.readParam? f k = sure (m.readParam f k))
  (htarget : ∀ k, f.instruction.opcode.target? = some k → m.target? f k = sure (m.target f k))
include hread

theorem branch?_eq (harity : f.instruction.opcode.arity = 2) (test : Cell → Bool) :
    m.branch? f test = sure (m.branch f test) := by
  rw [branch?, branch, hread 0 (by omega), hread 1 (by omega)]
  simp only [← sure_bind]
  rfl

include htarget

theorem combine?_eq (ht : f.instruction.opcode.target? = some 2) (op : Cell → Cell → Cell) :
    m.combine? f op = sure (m.combine f op) := by
  have harity := Opcode.target?_lt ht
  rw [combine?, combine, hread 0 (by omega), hread 1 (by omega), htarget 2 ht]
  simp only [← sure_bind]
  rfl

theorem effect?_eq : m.effect? f = sure (m.effect f) := by
  unfold effect? effect
  cases hop : f.instruction.opcode with
  | add | multiply | lessThan | equals =>
    simp only [combine?_eq hread htarget (by rw [hop]; rfl), sure_map]
  | jumpIfTrue | jumpIfFalse => simp only [branch?_eq hread (by rw [hop]; rfl), sure_map]
  | output | adjustRelativeBase =>
    rw [hread 0 (by rw [hop]; decide)]
    simp only [← sure_bind]
    rfl
  | input =>
    cases hin : m.input with
    | nil => rfl
    | cons v rest =>
      simp only [htarget 0 (by rw [hop]; rfl), ← sure_bind]
      rfl
  | halt => rfl

end Answers

theorem operand_target {m : Machine} {f : Fetched} {k : Nat} (hd : decode f.word = .ok f.instruction)
    (ht : f.instruction.opcode.target? = some k) {o : Operand} (h : m.operand f k = .ok o) :
    ∃ u, o = .address u ∧ Count.Holds (u.toNat + 1) := by
  have hk := Opcode.target?_lt ht
  have haccess : f.instruction.opcode.access k = .write := by rw [Opcode.access, if_pos ht]
  have hmode := modeAt_target hd hk haccess
  have hresolve := ((operand_eq_ok_iff hk).mp h).2
  obtain ⟨⟨_, hle⟩, u, hu, hplace⟩ | ⟨_, e, he⟩ := resolve_cases (m := m) hmode
  · rw [hu] at hresolve
    cases hresolve
    refine ⟨u, rfl, ?_⟩
    unfold Cell.greatest at hle
    unfold Count.Holds Count.greatest
    omega
  · rw [he] at hresolve
    cases hresolve

theorem written_lt_size {e : Effect} {mem : Memory} :
    ∀ cell ∈ e.written?, cell.1 < (e.onMemory mem).size := by
  intro cell hcell
  have hwritten : e.written? = some cell := hcell
  rcases cell with ⟨address, value⟩
  rw [Effect.onMemory, hwritten, Memory.size_store]
  omega

theorem step?_eq {m : Machine} (hroom : m.mem.size ≤ Memory.ceiling) : m.step? = some m.step := by
  unfold step? step
  cases ht : m.state.isTerminal with
  | true => rfl
  | false =>
    rw [if_neg Bool.false_ne_true, if_neg Bool.false_ne_true]
    cases hf : m.fetch with
    | error e => rfl
    | ok f =>
      obtain ⟨_, hin, _, hd⟩ := fetch_eq_ok_iff.mp hf
      have hlength := (decode_eq_ok_iff.mp hd).2.1
      have harity := f.instruction.opcode.arity_le
      have hplaces (k : Nat) (hk : k < f.instruction.opcode.arity) : Count.Holds (f.pc + 1 + k) := by
        unfold Memory.ceiling at hroom
        unfold Count.Holds Count.greatest
        omega
      have hpc : Cell.Holds f.pc := by
        unfold Memory.ceiling at hroom
        unfold Cell.Holds Cell.greatest
        omega
      have hoperand (k : Nat) (hk : k < f.instruction.opcode.arity) :=
        operand?_eq (m := m) hlength hk (hplaces k hk)
      have heffect : m.effect? f = sure (m.effect f) :=
        effect?_eq (fun k hk => readParam?_eq (hoperand k hk))
          fun k ht => target?_eq (hoperand k (Opcode.target?_lt ht)) fun _ => operand_target hd ht
      dsimp only
      rw [Fallible.guard_bind ⟨hpc, harity⟩, Fallible.guard_bind (fun k hk => hplaces k (hlength ▸ hk)), heffect]
      cases he : m.effect f with
      | error e => rfl
      | ok o =>
        cases o with
        | none => rfl
        | some e => exact Fallible.guard_bind written_lt_size _

end Machine

end Intcode
