import Intcode.Proofs.Calls
import Mathlib.Data.List.Forall2
set_option autoImplicit false

/-!
Calls that can be left out. A change to a machine goes unnoticed if a step does the same with it and
carries it along, and then a run does too. Calls that bring about such changes and nothing else can be
struck from a session: those that remain come back as before, with the same replies.
-/
namespace Intcode

namespace Machine

/-- A change to a machine that no step notices. -/
structure Unnoticed (g : Machine → Machine) : Prop where
  state : ∀ m, (g m).state = m.state
  step : ∀ m, (g m).step = (m.step.1, g m.step.2)
  pushInput : ∀ m values, (g m).pushInput values = g (m.pushInput values)

namespace Unnoticed
variable {g : Machine → Machine}

theorem advance (h : Unnoticed g) (n : Nat) (m : Machine) :
    advance n (g m) = ((advance n m).1, g (advance n m).2) := by
  induction n generalizing m with
  | zero => rfl
  | succ n ih =>
    unfold Machine.advance
    rw [h.step]
    rcases m.step with ⟨out, mid⟩
    cases out with
    | error e => rfl
    | ok s =>
      cases s with
      | executed i => exact ih mid
      | blocked => rfl
      | halted => rfl

theorem runLimited (h : Unnoticed g) (m : Machine) (input : List Cell) (budget : Count) :
    (g m).runLimited input budget =
      ((m.runLimited input budget).1, g (m.runLimited input budget).2) := by
  unfold Machine.runLimited
  rw [h.state]
  split
  · rfl
  · simp only [h.pushInput, h.advance, h.state]

theorem run? (h : Unnoticed g) (m : Machine) (input : List Cell) (fuel : Nat) :
    (g m).run? input fuel = (m.run? input fuel).map fun answer => (answer.1, g answer.2) := by
  unfold Machine.run?
  rw [h.state]
  split
  · rfl
  · simp only [h.pushInput, h.advance, Option.map_map, Function.comp_def]

end Unnoticed

def Carried (g g' : Machine → Machine) (m : Machine) (call : Call) : Prop :=
  ∀ fuel, (g m).ask? fuel call = (m.ask? fuel call).map fun event => (event.1, g' event.2)

namespace Unnoticed
variable {g : Machine → Machine} (h : Unnoticed g) (m : Machine)
include h

theorem carried_step : Carried g g m .step := by
  intro fuel
  simp only [ask?, h.step, Option.map_some]

theorem carried_run (input : List Cell) : Carried g g m (.run input) := by
  intro fuel
  simp only [ask?, h.run?, Option.map_map, Function.comp_def]

theorem carried_runLimited (input : List Cell) (budget : Count) :
    Carried g g m (.runLimited input budget) := by
  intro fuel
  simp only [ask?, h.runLimited, Option.map_some]

theorem carried_pushInput (values : List Cell) : Carried g g m (.pushInput values) := by
  intro fuel
  simp only [ask?, h.pushInput, Option.map_some]

end Unnoticed

/-- Calls that do nothing but change the machine within a family of changes that the other calls carry
along. Which change it is may be another after each call. -/
structure Spared {σ : Type} (spare : Call → Bool) (g : σ → Machine → Machine) : Prop where
  spared : ∀ s m {call}, spare call = true →
    ∃ reply after s', m.Answers call reply after ∧ g s' after = g s m
  carried : ∀ s m {call}, spare call = false → ∃ s', Carried (g s) (g s') m call

def kept (spare : Call → Bool) (calls : List Call) (events : List (Reply × Machine)) :
    List (Reply × Machine) :=
  ((calls.zip events).filter fun p => !spare p.1).map Prod.snd

theorem kept_cons (spare : Call → Bool) (call : Call) (calls : List Call) (event : Reply × Machine)
    (events : List (Reply × Machine)) :
    kept spare (call :: calls) (event :: events) =
      if spare call then kept spare calls events else event :: kept spare calls events := by
  cases h : spare call <;> simp [kept, h]

def ending : Machine → List (Reply × Machine) → Machine
  | m, [] => m
  | _, event :: events => ending event.2 events

section Spared
variable {σ : Type} {spare : Call → Bool} {g : σ → Machine → Machine} {m : Machine}
  {calls : List Call} {events : List (Reply × Machine)}

/-- A session without the spared calls goes as it did with them. -/
theorem Spared.session (h : Spared spare g) (hs : m.Session calls events) (s : σ) :
    ∃ plain s', (g s m).Session (calls.filter (!spare ·)) plain ∧
      List.Forall₂ (fun p e => p.1 = e.1 ∧ ∃ s, p.2 = g s e.2) plain (kept spare calls events) ∧
      (g s m).ending plain = g s' (m.ending events) := by
  induction hs generalizing s with
  | nil m => exact ⟨[], s, .nil _, .nil, rfl⟩
  | @cons m mid call calls reply events ha _ ih =>
    cases hcall : spare call with
    | true =>
      obtain ⟨_, _, s₁, ha', hsame⟩ := h.spared s m hcall
      obtain ⟨rfl, rfl⟩ := ha.unique ha'
      obtain ⟨plain, s', hplain, hall, hlast⟩ := ih s₁
      rw [hsame] at hplain hlast
      refine ⟨plain, s', ?_, ?_, hlast⟩
      · simpa [hcall] using hplain
      · simpa [kept_cons, hcall] using hall
    | false =>
      obtain ⟨s₁, hcarried⟩ := h.carried s m hcall
      obtain ⟨fuel, ha⟩ := ha
      obtain ⟨plain, s', hplain, hall, hlast⟩ := ih s₁
      have hstart : (g s m).Answers call reply (g s₁ mid) := ⟨fuel, by rw [hcarried, ha]; rfl⟩
      refine ⟨(reply, g s₁ mid) :: plain, s', ?_, ?_, hlast⟩
      · simpa [hcall] using Session.cons hstart hplain
      · rw [kept_cons, if_neg (by simp [hcall])]
        exact .cons ⟨rfl, s₁, rfl⟩ hall

theorem Spared.session_back (h : Spared spare g) {plain : List (Reply × Machine)} (s : σ)
    (hs : (g s m).Session (calls.filter (!spare ·)) plain) : ∃ events, m.Session calls events := by
  induction calls generalizing m s plain with
  | nil => exact ⟨[], .nil m⟩
  | cons call calls ih =>
    cases hcall : spare call with
    | true =>
      obtain ⟨reply, mid, s', ha, hsame⟩ := h.spared s m hcall
      rw [List.filter_cons_of_neg (by simp [hcall]), ← hsame] at hs
      obtain ⟨events, hrest⟩ := ih s' hs
      exact ⟨_, .cons ha hrest⟩
    | false =>
      obtain ⟨s', hcarried⟩ := h.carried s m hcall
      rw [List.filter_cons_of_pos (by simp [hcall])] at hs
      cases hs with
      | cons ha hrest =>
        obtain ⟨fuel, ha⟩ := ha
        rw [hcarried, Option.map_eq_some_iff] at ha
        obtain ⟨⟨reply, mid⟩, ha, heq⟩ := ha
        cases heq
        obtain ⟨events, hrest⟩ := ih s' hrest
        exact ⟨_, .cons ⟨fuel, ha⟩ hrest⟩

theorem Spared.exists_session_iff (h : Spared spare g) (s : σ) :
    (∃ events, m.Session calls events) ↔
      ∃ plain, (g s m).Session (calls.filter (!spare ·)) plain := by
  constructor
  · rintro ⟨events, hs⟩
    obtain ⟨plain, _, hplain, _⟩ := h.session hs s
    exact ⟨plain, hplain⟩
  · rintro ⟨plain, hs⟩
    exact h.session_back s hs

end Spared

end Machine

end Intcode
