import Intcode.Proofs.Step
set_option autoImplicit false

/-!
The same step, carried out in place: every access works on the machine as the accesses before it have
left it, each change is made as soon as it is known, and an error comes back with the machine as it was
changed so far. `InPlace.step_eq` says that this is no different from working everything out first, so
nothing is ever changed before the last thing that can fail.
-/
namespace Intcode

def InPlace (α : Type) := Machine → Except MachineError α × Machine

namespace InPlace

variable {α β : Type}

instance : Monad InPlace where
  pure a := fun m => (.ok a, m)
  bind x g := fun m => match x m with
    | (.ok a, m) => g a m
    | (.error e, m) => (.error e, m)

def look (g : Machine → Except MachineError α) : InPlace α := fun m => (g m, m)

def change (g : Machine → Machine) : InPlace Unit := fun m => (.ok (), g m)

def fail (e : MachineError) : InPlace α := fun m => (.error e, m)

def write (f : Fetched) (k : Nat) (value : Cell) : InPlace Unit := do
  match ← look (·.operand f k) with
  | .address a => do
    let mem ← look fun m => (m.mem.write a.toNat value).mapError .memory
    change ({ · with mem := mem })
  | .value _ =>
    fail (.decode f.pc (.illegalAddressingMode k (modeDigit f.word (UInt64.ofNat k)) .write))

def onward (f : Fetched) : InPlace Step := do
  change fun m => { m with regs := m.regs.advance (UInt64.ofNat f.instruction.width) }
  return .executed f.instruction

def combine (f : Fetched) (op : Cell → Cell → Cell) : InPlace Step := do
  let a ← look (·.readParam f 0)
  let b ← look (·.readParam f 1)
  write f 2 (op a b)
  onward f

def branch (f : Fetched) (test : Cell → Bool) : InPlace Step := do
  let a ← look (·.readParam f 0)
  let goal ← look (·.readParam f 1)
  if test a then do
    change fun m => { m with regs := m.regs.jump goal }
    return .executed f.instruction
  else onward f

def perform (f : Fetched) : InPlace Step :=
  match f.instruction.opcode with
  | .add => combine f (· + ·)
  | .multiply => combine f (· * ·)
  | .lessThan => combine f fun a b => if a < b then 1 else 0
  | .equals => combine f fun a b => if a = b then 1 else 0
  | .jumpIfTrue => branch f (· ≠ 0)
  | .jumpIfFalse => branch f (· = 0)
  | .input => do
    match ← look (.ok ·.input) with
    | [] => pure ()
    | value :: _ => do
      write f 0 value
      change fun m => { m with input := m.input.tail }
    onward f
  | .output => do
    let a ← look (·.readParam f 0)
    change fun m => { m with output := m.output.push a }
    onward f
  | .adjustRelativeBase => do
    let a ← look (·.readParam f 0)
    change fun m => { m with regs := m.regs.shift a }
    onward f
  | .halt => return .halted

/-- The trace entry is made before the instruction, and kept only if that succeeds. -/
def next : InPlace Step := do
  let f ← look (·.fetch)
  let queue ← look (.ok ·.input)
  if f.instruction.opcode = .input ∧ queue = [] then return .blocked
  else do
    let entry ← look fun m => .ok (if m.tracing then some (m.traceEntry f) else none)
    let s ← perform f
    change fun m => { m with steps := m.steps + 1 }
    change (·.record entry)
    return s

def step : InPlace Step := fun m =>
  if m.state.isTerminal then (.error (.notRunning m.state), m)
  else match next m with
    | (.ok s, m) => (.ok s, { m with state := s.state })
    | (.error e, m) => (.error e, { m with state := .errored })

variable {m : Machine} {f : Fetched} {g : Machine → Except MachineError α}

theorem look_bind_ok {k : α → InPlace β} {a : α} (h : g m = .ok a) : (look g >>= k) m = k a m := by
  simp [bind, look, h]

theorem look_bind_error {k : α → InPlace β} {e : MachineError} (h : g m = .error e) :
    (look g >>= k) m = (.error e, m) := by
  simp [bind, look, h]

theorem look_input_bind (k : List Cell → InPlace β) : (look (.ok ·.input) >>= k) m = k m.input m := rfl

theorem readParams_bind {a b : Cell} (h0 : m.readParam f 0 = .ok a) (h1 : m.readParam f 1 = .ok b)
    (k : Cell → Cell → InPlace β) :
    (look (·.readParam f 0) >>= fun a => look (·.readParam f 1) >>= k a) m = k a b m :=
  (look_bind_ok h0).trans (look_bind_ok h1)

/-- Work planned by an effect: it fails and leaves the machine alone, or carries the effect out. -/
def Carries (x : InPlace Step) (m : Machine) (f : Fetched) (plan : Except MachineError (Option Effect)) :
    Prop :=
  match plan with
  | .error e => x m = (.error e, m)
  | .ok none => True
  | .ok (some e) => x m = (.ok (if e = .halt then .halted else .executed f.instruction),
      m.apply f.instruction.width e)

theorem write_of_error {k : Nat} {value : Cell} {e : MachineError} (h : m.target f k = .error e) :
    write f k value m = (.error e, m) := by
  unfold Machine.target at h
  unfold write
  cases ho : m.operand f k with
  | error e' =>
    rw [ho] at h
    cases h
    exact look_bind_error ho
  | ok o =>
    rw [look_bind_ok ho]
    rw [ho] at h
    cases o with
    | value v =>
      cases h
      rfl
    | address a =>
      cases hc : m.mem.checkWrite a.toNat with
      | ok u => simp [hc, bind, Except.bind, pure, Except.pure] at h
      | error e' =>
        have hw : (m.mem.write a.toNat value).mapError MachineError.memory = .error (.memory e') := by
          simp [Memory.write, hc, bind, Except.bind]
        simp [hc, bind, Except.bind] at h
        subst h
        exact look_bind_error hw

theorem write_of_ok {k a : Nat} {value : Cell} (h : m.target f k = .ok a) :
    write f k value m = (.ok (), { m with mem := m.mem.store a value }) := by
  unfold Machine.target at h
  unfold write
  cases ho : m.operand f k with
  | error e => simp [ho, bind, Except.bind] at h
  | ok o =>
    rw [look_bind_ok ho]
    rw [ho] at h
    cases o with
    | value v => simp [bind, Except.bind] at h
    | address u =>
      cases hc : m.mem.checkWrite u.toNat with
      | error e => simp [hc, bind, Except.bind] at h
      | ok _ =>
        have hw : (m.mem.write u.toNat value).mapError MachineError.memory =
            .ok (m.mem.store u.toNat value) := by
          simp [Memory.write, hc, bind, Except.bind, pure, Except.pure]
        simp [hc, bind, Except.bind, pure, Except.pure] at h
        subst h
        exact look_bind_ok hw

theorem combine_carries (m : Machine) (f : Fetched) (op : Cell → Cell → Cell) :
    Carries (combine f op) m f (some <$> m.combine f op) := by
  unfold combine Machine.combine
  cases h0 : m.readParam f 0 with
  | error e => exact look_bind_error h0
  | ok a =>
    cases h1 : m.readParam f 1 with
    | error e => exact (look_bind_ok h0).trans (look_bind_error h1)
    | ok b =>
      cases h2 : m.target f 2 with
      | error e =>
        refine (readParams_bind h0 h1 _).trans ?_
        simp [bind, write_of_error h2]
      | ok t =>
        refine (readParams_bind h0 h1 _).trans ?_
        simp [bind, write_of_ok h2, onward, change, pure, Machine.apply]

theorem branch_carries (m : Machine) (f : Fetched) (test : Cell → Bool) :
    Carries (branch f test) m f (some <$> m.branch f test) := by
  unfold branch Machine.branch
  cases h0 : m.readParam f 0 with
  | error e => exact look_bind_error h0
  | ok a =>
    cases h1 : m.readParam f 1 with
    | error e => exact (look_bind_ok h0).trans (look_bind_error h1)
    | ok goal =>
      refine (readParams_bind h0 h1 _).trans ?_
      cases ht : test a <;> simp [bind, onward, change, pure, Machine.apply]

theorem perform_carries (m : Machine) (f : Fetched) : Carries (perform f) m f (m.effect f) := by
  unfold Machine.effect perform
  cases hop : f.instruction.opcode with
  | add | multiply | lessThan | equals => exact combine_carries m f _
  | jumpIfTrue | jumpIfFalse => exact branch_carries m f _
  | output | adjustRelativeBase =>
    cases h0 : m.readParam f 0 with
    | error e => exact look_bind_error h0
    | ok a => exact look_bind_ok h0
  | input =>
    cases hin : m.input with
    | nil => trivial
    | cons v rest =>
      cases ht : m.target f 0 with
      | error e =>
        refine (look_input_bind _).trans ?_
        rw [hin]
        simp [bind, write_of_error ht]
      | ok a =>
        refine (look_input_bind _).trans ?_
        rw [hin]
        simp [bind, write_of_ok ht, change, onward, pure, Machine.apply]
  | halt => rfl

theorem next_eq (hf : m.fetch = .ok f) :
    next m = if f.instruction.opcode = .input ∧ m.input = [] then (.ok .blocked, m)
      else match perform f m with
        | (.ok s, after) => (.ok s, { after with steps := after.steps + 1 }.record
            (if m.tracing then some (m.traceEntry f) else none))
        | (.error e, after) => (.error e, after) := by
  refine (look_bind_ok hf).trans ((look_input_bind _).trans ?_)
  by_cases h : f.instruction.opcode = .input ∧ m.input = []
  · rw [if_pos h, if_pos h]
    rfl
  · rw [if_neg h, if_neg h]
    simp only [bind, look]
    rcases perform f m with ⟨out, after⟩
    cases out <;> rfl

theorem step_eq (m : Machine) : step m = m.step := by
  cases ht : m.state.isTerminal with
  | true => simp [step, ht, Machine.step_of_terminal ht]
  | false =>
    unfold step
    simp only [ht, Bool.false_eq_true, if_false]
    obtain ⟨e, hf, hs⟩ | ⟨f, hf, ⟨e, he, hs⟩ | ⟨he, hs⟩ | ⟨e, he, hs⟩⟩ := Machine.step_cases ht
    · have hnext : next m = (.error e, m) := look_bind_error hf
      rw [hnext, hs]
    · have hperform := perform_carries m f
      have hfed := mt Machine.effect_eq_none_iff.mpr (by simp [he] : m.effect f ≠ .ok none)
      rw [he] at hperform
      rw [next_eq hf, if_neg hfed, hperform, hs]
    · rw [next_eq hf, if_pos (Machine.effect_eq_none_iff.mp he), hs]
      rfl
    · have hperform := perform_carries m f
      have hfed := mt Machine.effect_eq_none_iff.mpr (by simp [he] : m.effect f ≠ .ok none)
      rw [he] at hperform
      rw [next_eq hf, if_neg hfed, hperform, hs, Machine.commit_eq]
      unfold Machine.recorded
      cases m.tracing <;> cases e <;> rfl

end InPlace

end Intcode
