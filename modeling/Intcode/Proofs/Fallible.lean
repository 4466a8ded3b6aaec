set_option autoImplicit false

/-!
Computations that may fail, taken apart: what is known of the parts when the whole has succeeded or has
failed.
-/
namespace Intcode.Fallible

variable {ε δ α β : Type}

theorem bind_eq_ok {x : Except ε α} {g : α → Except ε β} {b : β} :
    x >>= g = .ok b ↔ ∃ a, x = .ok a ∧ g a = .ok b := by
  cases x <;> simp [bind, Except.bind]

theorem bind_eq_error {x : Except ε α} {g : α → Except ε β} {e : ε} :
    x >>= g = .error e ↔ x = .error e ∨ ∃ a, x = .ok a ∧ g a = .error e := by
  cases x <;> simp [bind, Except.bind]

theorem map_eq_ok {x : Except ε α} {g : α → β} {b : β} :
    g <$> x = .ok b ↔ ∃ a, x = .ok a ∧ g a = b := by
  cases x <;> simp [Functor.map, Except.map]

theorem map_eq_error {x : Except ε α} {g : α → β} {e : ε} : g <$> x = .error e ↔ x = .error e := by
  cases x <;> simp [Functor.map, Except.map]

@[simp] theorem mapError_ok (g : ε → δ) (a : α) : (Except.ok a).mapError g = .ok a := rfl

@[simp] theorem mapError_error (g : ε → δ) (e : ε) :
    (Except.error e : Except ε α).mapError g = .error (g e) := rfl

theorem mapError_eq_ok {x : Except ε α} {g : ε → δ} {a : α} : x.mapError g = .ok a ↔ x = .ok a := by
  cases x <;> simp

theorem mapError_eq_error {x : Except ε α} {g : ε → δ} {d : δ} :
    x.mapError g = .error d ↔ ∃ e, x = .error e ∧ g e = d := by
  cases x <;> simp

theorem toOption_eq_some {x : Except ε α} {a : α} : x.toOption = some a ↔ x = .ok a := by
  cases x <;> simp [Except.toOption]

theorem guard_bind {p : Prop} [Decidable p] (h : p) (g : Unit → Option α) : (guard p >>= g) = g () := by
  change ((if p then pure () else failure) >>= g) = g ()
  rw [if_pos h]
  rfl

/-- The computation `y` does what `x` does, unless `x` fails with such an error. -/
def Unless (bad : ε → Prop) (y x : Except ε α) : Prop := y = x ∨ ∃ e, x = .error e ∧ bad e

section Unless
variable {bad : ε → Prop} {x y : Except ε α}

theorem Unless.refl (bad : ε → Prop) (x : Except ε α) : Unless bad x x := .inl rfl

theorem Unless.eq_ok {a : α} (h : Unless bad y x) (hx : x = .ok a) : y = .ok a := by
  obtain h | ⟨e, he, _⟩ := h
  · rw [h, hx]
  · simp [hx] at he

theorem Unless.bind {g h : α → Except ε β} (hyx : Unless bad y x)
    (hgh : ∀ a, Unless bad (g a) (h a)) : Unless bad (y >>= g) (x >>= h) := by
  obtain rfl | ⟨e, rfl, hbad⟩ := hyx
  · cases y with
    | error e => exact .inl rfl
    | ok a => exact hgh a
  · exact .inr ⟨e, rfl, hbad⟩

theorem Unless.map (g : α → β) (h : Unless bad y x) : Unless bad (g <$> y) (g <$> x) := by
  obtain rfl | ⟨e, rfl, hbad⟩ := h
  · exact .inl rfl
  · exact .inr ⟨e, rfl, hbad⟩

theorem Unless.mapError {bad' : δ → Prop} (g : ε → δ) (hg : ∀ e, bad e → bad' (g e))
    (h : Unless bad y x) : Unless bad' (y.mapError g) (x.mapError g) := by
  obtain rfl | ⟨e, rfl, hbad⟩ := h
  · exact .inl rfl
  · exact .inr ⟨g e, rfl, hg e hbad⟩

end Unless

end Intcode.Fallible
