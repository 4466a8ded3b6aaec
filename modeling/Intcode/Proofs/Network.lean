import Intcode.Proofs.Course
import Mathlib.Data.Fintype.Pi
set_option autoImplicit false

/-!
Machines that feed one another. Each machine has at most one that it sends its output to and at most one
that it gets input from; chains and rings are such networks. Steps and deliveries may come in any order,
but once the network has come to rest the order cannot be told from what is left.
-/
namespace Intcode

/-- Where each machine of a family sends its output. No two of them send to the same one. -/
structure Wiring (ι : Type) where
  next : ι → Option ι
  sole : ∀ {i j k : ι}, next i = some k → next j = some k → i = j

inductive Action (ι : Type)
  | step (i : ι)
  | deliver (i : ι)
  deriving DecidableEq, Repr

namespace Wiring
variable {ι : Type} (w : Wiring ι)

/-- No machine has anything left to do, and no output is left to deliver. -/
def Quiescent (c : ι → Machine) : Prop :=
  ∀ i, (w.next i ≠ none → (c i).output = #[]) ∧ (c i).Idle

instance [Fintype ι] [DecidableEq ι] (c : ι → Machine) : Decidable (w.Quiescent c) :=
  inferInstanceAs (Decidable (∀ _, _))

def sent (received : ι → List Cell) (i : ι) : Array Cell :=
  match w.next i with
  | none => #[]
  | some j => (received j).toArray

/-- Each machine of `c` is on the course it takes from `start` with the input it has `received`. -/
structure Follows (start : ι → Machine) (received : ι → List Cell) (c : ι → Machine) : Prop where
  became : ∀ i, Machine.Became (start i) (received i) (w.sent received i) (c i)
  sincere : ∀ i, (c i).Sincere

section Follows
variable {w} {start c c' : ι → Machine} {received received' : ι → List Cell} {i j : ι}

theorem sent_of_next (h : w.next i = some j) : w.sent received i = (received j).toArray := by
  simp [sent, h]

theorem follows_start (h : ∀ i, (start i).Sincere) : w.Follows start (fun _ => []) start := by
  refine ⟨?_, h⟩
  intro i
  have hsent : w.sent (fun _ => []) i = #[] := by
    cases hn : w.next i <;> simp [sent, hn]
  rw [hsent]
  exact Machine.became_start (start i)

theorem Follows.stuck (h : w.Follows start received c) (hq : w.Quiescent c) (i : ι) : (c i).Stuck :=
  (h.sincere i).stuck (hq i).2

theorem Follows.output_due (h : w.Follows start received c) (h' : w.Follows start received' c')
    (hq : w.Quiescent c') (hr : received i <+: received' i) (hn : w.next i = some j) :
    received j ++ (c i).output.toList <+: received' j := by
  have hout := (h.became i).output_grows (h'.became i) hr (h'.stuck hq i)
  have hempty : (c' i).output = #[] := (hq i).1 (by simp [hn])
  simpa [sent_of_next hn, hempty] using hout

/-- Nothing was delivered that some schedule could come to rest without. -/
def Due (w : Wiring ι) (start : ι → Machine) (received : ι → List Cell) : Prop :=
  ∀ received' c', w.Follows start received' c' → w.Quiescent c' → ∀ i, received i <+: received' i

theorem Due.eq (h : w.Due start received) (h' : w.Due start received')
    (hf : w.Follows start received c) (hf' : w.Follows start received' c')
    (hq : w.Quiescent c) (hq' : w.Quiescent c') : received = received' := by
  funext i
  have hle := h received' c' hf' hq' i
  have hge := h' received c hf hq i
  exact hle.eq_of_length_le hge.length_le

theorem Follows.unique (h : w.Follows start received c) (h' : w.Follows start received c')
    (hq : w.Quiescent c) (hq' : w.Quiescent c') : c = c' := by
  funext i
  exact (h.became i).unique (h'.became i) (h.sincere i) (h'.sincere i) (hq i).2 (hq' i).2

end Follows

variable [DecidableEq ι]

def act (c : ι → Machine) : Action ι → ι → Machine
  | .step i => Function.update c i (c i).step.2
  | .deliver i => match w.next i with
    | none => c
    | some j =>
      let (out, drained) := (c i).drainOutput
      let c := Function.update c i drained
      Function.update c j ((c j).pushInput out.toList)

def run (c : ι → Machine) (schedule : List (Action ι)) : ι → Machine := schedule.foldl w.act c

variable {w} {start c : ι → Machine} {received : ι → List Cell} {i j : ι}

theorem sent_update (h : w.next i = some j) (out : Array Cell) :
    w.sent (Function.update received j (received j ++ out.toList)) =
      Function.update (w.sent received) i (w.sent received i ++ out) := by
  funext k
  by_cases hk : k = i
  · subst k
    simp [sent, h]
  · rw [Function.update_of_ne hk]
    cases hn : w.next k with
    | none => simp [sent, hn]
    | some l =>
      have hl : l ≠ j := by
        intro hl
        subst l
        exact hk (w.sole hn h)
      simp [sent, hn, hl]

theorem Follows.step (h : w.Follows start received c) (i : ι) :
    w.Follows start received (w.act c (.step i)) := by
  constructor
  · intro k
    by_cases hk : k = i
    · subst k
      simpa [act] using (h.became i).step
    · simpa [act, hk] using h.became k
  · intro k
    by_cases hk : k = i
    · subst k
      simpa [act] using (h.sincere i).step
    · simpa [act, hk] using h.sincere k

theorem Follows.deliver (h : w.Follows start received c) (hn : w.next i = some j) :
    w.Follows start (Function.update received j (received j ++ (c i).output.toList))
      (w.act c (.deliver i)) := by
  have hact : w.act c (.deliver i) = Function.update (Function.update c i (c i).clearOutput) j
      ((Function.update c i (c i).clearOutput j).pushInput (c i).output.toList) := by
    simp [act, hn, Machine.drainOutput]
  -- The sender first, with its receiver as it was: the two may be the same machine.
  have hbecame : ∀ k, Machine.Became (start k) (received k)
      (Function.update (w.sent received) i (w.sent received i ++ (c i).output) k)
      (Function.update c i (c i).clearOutput k) := by
    intro k
    by_cases hk : k = i
    · subst k
      simpa using (h.became i).drain
    · simpa [hk] using h.became k
  have hsincere : ∀ k, (Function.update c i (c i).clearOutput k).Sincere := by
    intro k
    by_cases hk : k = i
    · subst k
      simpa using (h.sincere i).clearOutput
    · simpa [hk] using h.sincere k
  rw [hact]
  constructor
  · intro k
    rw [sent_update hn]
    by_cases hk : k = j
    · subst k
      simpa using (hbecame j).receive (c i).output.toList
    · simpa [hk] using hbecame k
  · intro k
    by_cases hk : k = j
    · subst k
      simpa using (hsincere j).pushInput (c i).output.toList
    · simpa [hk] using hsincere k

theorem Due.deliver (hd : w.Due start received) (h : w.Follows start received c)
    (hn : w.next i = some j) :
    w.Due start (Function.update received j (received j ++ (c i).output.toList)) := by
  intro received' c' h' hq' k
  by_cases hk : k = j
  · subst k
    have hout := h.output_due h' hq' (hd received' c' h' hq' i) hn
    simpa using hout
  · simpa [hk] using hd received' c' h' hq' k

/-- An action keeps every machine on its course, and delivers nothing but what is due. -/
theorem exists_follows_act (h : w.Follows start received c) (hd : w.Due start received)
    (a : Action ι) :
    ∃ received', w.Follows start received' (w.act c a) ∧ w.Due start received' := by
  cases a with
  | step i => exact ⟨received, h.step i, hd⟩
  | deliver i =>
    cases hn : w.next i with
    | none =>
      have hact : w.act c (.deliver i) = c := by simp [act, hn]
      rw [hact]
      exact ⟨received, h, hd⟩
    | some j => exact ⟨_, h.deliver hn, hd.deliver h hn⟩

theorem exists_follows_foldl (schedule : List (Action ι)) (h : w.Follows start received c)
    (hd : w.Due start received) :
    ∃ received', w.Follows start received' (w.run c schedule) ∧ w.Due start received' := by
  induction schedule generalizing c received with
  | nil => exact ⟨received, h, hd⟩
  | cons a rest ih =>
    obtain ⟨received', h', hd'⟩ := exists_follows_act h hd a
    exact ih h' hd'

theorem exists_follows_run (h : ∀ i, (start i).Sincere) (schedule : List (Action ι)) :
    ∃ received, w.Follows start received (w.run start schedule) ∧ w.Due start received := by
  refine exists_follows_foldl schedule (follows_start h) ?_
  intro received' c' _ _ i
  exact List.nil_prefix

/-- However the steps and the deliveries of a network are ordered, it comes to rest in one way only,
if no machine of it claims to be blocked that could go on. -/
theorem run_unique_of_quiescent (w : Wiring ι) (start : ι → Machine) (first second : List (Action ι))
    (hs : ∀ i, (start i).Sincere) (hf : w.Quiescent (w.run start first))
    (hg : w.Quiescent (w.run start second)) : w.run start first = w.run start second := by
  obtain ⟨received, h, hd⟩ := exists_follows_run hs first
  obtain ⟨received', h', hd'⟩ := exists_follows_run hs second
  have heq : received = received' := hd.eq hd' h h' hf hg
  subst heq
  exact h.unique h' hf hg

def pair : Wiring (Fin 2) where
  next i := some (i + 1)
  sole := by
    intro i j k hi hj
    have hij : i + 1 = j + 1 := Option.some.inj (hi.trans hj.symm)
    omega

def echo : Fin 2 → Machine
  | 0 => .ofMemory #[] [] ⟨#[104, 7, 3, 0, 99], .strict, 5⟩
  | 1 => .ofMemory #[] [] ⟨#[3, 0, 4, 0, 99], .strict, 5⟩

theorem run_unique_of_quiescent_echo :
    pair.run echo [.step 0, .deliver 0, .step 1, .step 1, .step 1, .deliver 1, .step 0, .step 0] =
    pair.run echo [.step 1, .step 0, .step 0, .deliver 0, .step 1, .step 0, .step 1, .deliver 1,
      .step 0, .step 1, .step 0] := by
  apply run_unique_of_quiescent
  · intro i
    match i with
    | 0 => exact Machine.sincere_ofMemory _ _ _
    | 1 => exact Machine.sincere_ofMemory _ _ _
  · decide +kernel
  · decide +kernel

/-- A machine that waited for input when its program counter was moved on to a halt. -/
def moved : Machine := { Machine.new #[3, 3, 99, 0] [] with regs := { pc := 2 }, state := .blocked }

theorem moved_fetch : moved.fetch = .ok ⟨2, 99, ⟨.halt, []⟩⟩ := by
  have hword : moved.mem.cells[2]? = some 99 := Array.getElem?_append_left (by decide)
  have hpc : moved.regs.pc.toUInt64.toNat = 2 := rfl
  have hneg : ¬ moved.regs.pc < 0 := by decide
  have hdecode : decode 99 = .ok ⟨.halt, []⟩ := rfl
  simp only [Machine.fetch, hneg, if_false, hpc, hword, hdecode]

theorem moved_step_state : moved.step.2.state = .halted := by
  rw [Machine.step_of_effect (m := moved) rfl moved_fetch rfl]
  simp [Machine.commit]

theorem moved_ne_step : moved ≠ moved.step.2 := by
  intro h
  have hstate := congrArg Machine.state h
  rw [moved_step_state] at hstate
  cases hstate

def alone : Wiring (Fin 1) where
  next _ := none
  sole := by
    intro i j k hi
    cases hi

theorem alone_run_step (m : Machine) : alone.run (fun _ => m) [.step 0] = fun _ => m.step.2 := by
  funext i
  obtain rfl : i = 0 := Subsingleton.elim i 0
  simp only [run, act, List.foldl, Function.update_self]

theorem alone_quiescent_iff (m : Machine) : alone.Quiescent (fun _ => m) ↔ m.Idle := by
  simp [Quiescent, alone]

/-- A machine can have been moved away from its input instruction while it was blocked. -/
theorem run_not_unique_of_moved :
    ¬ ∀ (w : Wiring (Fin 1)) (start : Fin 1 → Machine) (first second : List (Action (Fin 1))),
      w.Quiescent (w.run start first) → w.Quiescent (w.run start second) →
      w.run start first = w.run start second := by
  intro h
  have hfirst : alone.Quiescent (alone.run (fun _ => moved) []) :=
    (alone_quiescent_iff moved).mpr (.inr ⟨rfl, rfl⟩)
  have hsecond : alone.Quiescent (alone.run (fun _ => moved) [.step 0]) := by
    rw [alone_run_step, alone_quiescent_iff]
    exact .inl (by rw [moved_step_state]; rfl)
  have heq : (fun _ => moved) = alone.run (fun _ => moved) [.step 0] :=
    h alone (fun _ => moved) [] [.step 0] hfirst hsecond
  rw [alone_run_step] at heq
  exact moved_ne_step (congrFun heq 0)

end Wiring

end Intcode
