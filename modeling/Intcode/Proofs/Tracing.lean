import Intcode.Proofs.Omission
set_option autoImplicit false

/-!
Tracing is only watching. What a traced instruction reads for its record it reads on the side, and nothing
comes of it but the record. So two machines that differ in their traces go the same way, whatever is done
to the traces meanwhile.
-/
namespace Intcode

def Call.isTracing : Call → Bool
  | .setTrace _ => true
  | .drainTrace => true
  | _ => false

namespace Machine

def untraced (m : Machine) : Machine := { m with tracing := false, trace := #[] }

theorem step_untraced (m : Machine) : m.untraced.step = (m.step.1, m.step.2.untraced) := by
  have hcommit : ∀ f e, m.untraced.commit f e = (m.commit f e).untraced := by
    intro f e
    rw [commit_eq, commit_eq]
    cases e <;> rfl
  exact step_carry (g := untraced) rfl rfl (fun _ => rfl) hcommit fun _ => rfl

theorem unnoticed_untraced : Unnoticed untraced where
  state _ := rfl
  step := step_untraced
  pushInput _ _ := rfl

theorem spared_isTracing : Spared Call.isTracing fun _ : Unit => untraced where
  spared s m call hcall := by
    cases call with
    | setTrace on => exact ⟨.done, _, (), ⟨0, rfl⟩, rfl⟩
    | drainTrace => exact ⟨.trace m.trace, _, (), ⟨0, rfl⟩, rfl⟩
    | _ => cases hcall
  carried s m call hcall := by
    refine ⟨(), ?_⟩
    cases call with
    | step => exact unnoticed_untraced.carried_step m
    | run input => exact unnoticed_untraced.carried_run m input
    | runLimited input budget => exact unnoticed_untraced.carried_runLimited m input budget
    | pushInput values => exact unnoticed_untraced.carried_pushInput m values
    | setTrace on => cases hcall
    | drainTrace => cases hcall
    | drainOutput | assign _ | reset | restart => exact fun _ => rfl

/-- What is left of a session when the trace is not looked at. -/
def sansTrace (calls : List Call) (events : List (Reply × Machine)) : List (Reply × Machine) :=
  (kept Call.isTracing calls events).map fun event => (event.1, event.2.untraced)

section Sessions
variable {m : Machine} {calls : List Call} {events : List (Reply × Machine)}

theorem session_untraced (h : m.Session calls events) :
    m.untraced.Session (calls.filter (!·.isTracing)) (sansTrace calls events) ∧
      m.untraced.ending (sansTrace calls events) = (m.ending events).untraced := by
  obtain ⟨plain, _, hplain, hall, hlast⟩ := spared_isTracing.session h ()
  have heq : List.Forall₂ (· = ·) plain (sansTrace calls events) := by
    refine List.forall₂_map_right_iff.mpr (hall.imp ?_)
    rintro p e ⟨hreply, _, hmachine⟩
    exact Prod.ext hreply hmachine
  rw [List.forall₂_eq_eq_eq] at heq
  rw [heq] at hplain hlast
  exact ⟨hplain, hlast⟩

end Sessions

/-- Two machines that differ in their traces at most, and two sessions that differ in calls about the trace
at most: one comes back if the other does, and then the same is to be seen in both, call by call. -/
theorem session_regardless_of_trace (a b : Machine) (hab : a.untraced = b.untraced)
    (calls calls' : List Call) (hcalls : calls.filter (!·.isTracing) = calls'.filter (!·.isTracing)) :
    ((∃ events, a.Session calls events) ↔ ∃ events, b.Session calls' events) ∧
    ∀ events events', a.Session calls events → b.Session calls' events' →
      sansTrace calls events = sansTrace calls' events' ∧
      (a.ending events).untraced = (b.ending events').untraced := by
  refine ⟨?_, ?_⟩
  · rw [spared_isTracing.exists_session_iff (), spared_isTracing.exists_session_iff (m := b) (), hab,
      hcalls]
  · intro events events' ha hb
    obtain ⟨hplain, hlast⟩ := session_untraced ha
    obtain ⟨hplain', hlast'⟩ := session_untraced hb
    rw [hab, hcalls] at hplain
    have hsame := hplain.unique hplain'
    rw [← hlast, ← hlast', hsame, hab]
    exact ⟨rfl, rfl⟩

/-- One machine is traced from the start and its trace taken away, the other is traced later. -/
theorem session_regardless_of_trace_outputs :
    let b := ofMemory #[] [] ⟨#[104, 5, 104, 6, 99], .strict, 5⟩
    let a := b.setTrace true
    let calls := [.step, .drainTrace, .runLimited [8] 1, .setTrace false]
    let calls' := [.step, .setTrace true, .runLimited [8] 1]
    ∃ events events', a.Session calls events ∧ b.Session calls' events' ∧
      (a.ending events).output = #[5, 6] ∧ (a.ending events).trace ≠ #[] ∧
      (a.ending events).tracing ≠ (b.ending events').tracing ∧
      sansTrace calls events = sansTrace calls' events' ∧
      (a.ending events).untraced = (b.ending events').untraced := by
  intro b a calls calls'
  have ha : a.Session calls _ :=
    .cons ⟨0, rfl⟩ (.cons ⟨0, rfl⟩ (.cons ⟨0, rfl⟩ (.cons ⟨0, rfl⟩ (.nil _))))
  have hb : b.Session calls' _ := .cons ⟨0, rfl⟩ (.cons ⟨0, rfl⟩ (.cons ⟨0, rfl⟩ (.nil _)))
  refine ⟨_, _, ha, hb, by decide +kernel, by decide +kernel, by decide +kernel, ?_⟩
  exact (session_regardless_of_trace a b rfl calls calls' rfl).2 _ _ ha hb

end Machine

end Intcode
