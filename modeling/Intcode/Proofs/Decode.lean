import Intcode.Instruction.Decode
import Intcode.Proofs.Fallible
set_option autoImplicit false

/-!
When a word is an instruction: its two low digits name an opcode, and each of the opcode's parameters has
a mode that it may have. When it is none, the error is about the opcode, or about the first parameter that
has no such mode.
-/
namespace Intcode

theorem mapM_range_eq_ok {ε β : Type} {g : Nat → Except ε β} (d : β) {n : Nat} {ys : List β} :
    (List.range n).mapM g = .ok ys ↔ ys.length = n ∧ ∀ k < n, g k = .ok (ys.getD k d) := by
  induction n generalizing ys with
  | zero =>
    cases ys <;> simp [pure, Except.pure]
  | succ n ih =>
    rw [List.range_succ, List.mapM_append, Fallible.bind_eq_ok]
    constructor
    · intro h
      rcases h with ⟨front, hfront, h⟩
      obtain ⟨hlen, hg⟩ := ih.mp hfront
      cases hn : g n with
      | error e => simp [hn, bind, Except.bind] at h
      | ok y =>
        simp [hn, bind, Except.bind, pure, Except.pure] at h
        subst h
        refine ⟨by simp [hlen], ?_⟩
        intro k hk
        by_cases hkn : k = n
        · subst hkn
          rw [hn]
          simp [hlen]
        · have hk' : k < front.length := by omega
          rw [hg k (by omega)]
          simp [List.getElem?_append_left hk']
    · intro h
      rcases h with ⟨hlen, hg⟩
      refine ⟨ys.take n, ih.mpr ⟨by simp [hlen], ?_⟩, ?_⟩
      · intro k hk
        rw [hg k (by omega)]
        simp [hk]
      · have hlt : n < ys.length := by omega
        have hlast : ys.take n ++ [ys.getD n d] = ys := by
          have hd : ys.getD n d = ys[n] := by simp [hlt]
          rw [hd, List.take_append_getElem hlt, List.take_of_length_le (by omega)]
        rw [List.mapM_cons, hg n (by omega)]
        exact congrArg Except.ok hlast

theorem exists_of_mapM_range_eq_error {ε β : Type} {g : Nat → Except ε β} (d : β) {n : Nat} {e : ε}
    (h : (List.range n).mapM g = .error e) : ∃ k < n, g k = .error e ∧ ∀ j < k, ∃ y, g j = .ok y := by
  induction n with
  | zero => cases h
  | succ n ih =>
    rw [List.range_succ, List.mapM_append, Fallible.bind_eq_error] at h
    obtain h | ⟨front, hfront, h⟩ := h
    · obtain ⟨k, hk, hbad, hgood⟩ := ih h
      exact ⟨k, Nat.lt_succ_of_lt hk, hbad, hgood⟩
    · refine ⟨n, Nat.lt_succ_self n, ?_, fun j hj => ⟨_, ((mapM_range_eq_ok d).mp hfront).2 j hj⟩⟩
      cases hn : g n <;> simp [hn, bind, Except.bind, pure, Except.pure] at h ⊢
      exact h

/-- The error is that of the first place that has one. -/
theorem mapM_range_eq_error {ε β : Type} {g : Nat → Except ε β} (d : β) {n : Nat} {e : ε} :
    (List.range n).mapM g = .error e ↔ ∃ k < n, g k = .error e ∧ ∀ j < k, ∃ y, g j = .ok y := by
  refine ⟨exists_of_mapM_range_eq_error d, ?_⟩
  rintro ⟨k, hk, hbad, hgood⟩
  cases h : (List.range n).mapM g with
  | ok ys =>
    have hk' := ((mapM_range_eq_ok d).mp h).2 k hk
    simp [hbad] at hk'
  | error e' =>
    obtain ⟨k', _, hbad', hgood'⟩ := exists_of_mapM_range_eq_error d h
    obtain hlt | rfl | hgt := Nat.lt_trichotomy k k'
    · obtain ⟨y, hy⟩ := hgood' k hlt
      simp [hbad] at hy
    · rw [Except.error.inj (hbad'.symm.trans hbad)]
    · obtain ⟨y, hy⟩ := hgood k' hgt
      simp [hbad'] at hy

theorem decode_eq_ok_iff {w : Cell} {i : Instruction} :
    decode w = .ok i ↔ Opcode.ofCode? (w % 100) = some i.opcode ∧ i.modes.length = i.opcode.arity ∧
      ∀ k < i.opcode.arity, paramMode i.opcode w k = .ok (i.modeAt k) := by
  unfold decode
  cases hop : Opcode.ofCode? (w % 100) with
  | none => simp
  | some op =>
    simp only [Fallible.bind_eq_ok, mapM_range_eq_ok Mode.position, Option.some.injEq]
    constructor
    · intro h
      rcases h with ⟨modes, h, hi⟩
      cases hi
      exact ⟨rfl, h⟩
    · intro h
      rcases h with ⟨rfl, h⟩
      exact ⟨i.modes, h, rfl⟩

theorem decode_eq_error_iff {w : Cell} {e : DecodeError} :
    decode w = .error e ↔ (Opcode.ofCode? (w % 100) = none ∧ e = .invalidOpcode w) ∨
      ∃ op, Opcode.ofCode? (w % 100) = some op ∧ ∃ k < op.arity, paramMode op w k = .error e ∧
        ∀ j < k, ∃ mode, paramMode op w j = .ok mode := by
  unfold decode
  cases hop : Opcode.ofCode? (w % 100) with
  | none => simp [eq_comm]
  | some op => simp [Fallible.bind_eq_error, mapM_range_eq_error Mode.position, pure, Except.pure]

theorem paramMode_target {op : Opcode} {w : Cell} {k : Nat} {mode : Mode}
    (h : paramMode op w k = .ok mode) (ha : op.access k = .write) : mode ≠ .immediate := by
  intro heq
  subst heq
  unfold paramMode at h
  simp only [ha] at h
  split at h
  · simp at h
  · split at h
    · simp at h
    · simp_all

theorem modeAt_target {w : Cell} {i : Instruction} {k : Nat} (h : decode w = .ok i)
    (hk : k < i.opcode.arity) (ha : i.opcode.access k = .write) : i.modeAt k ≠ .immediate :=
  paramMode_target ((decode_eq_ok_iff.mp h).2.2 k hk) ha

end Intcode
