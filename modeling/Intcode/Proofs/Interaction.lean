import Intcode.Console.Report
import Intcode.Proofs.Restart
import Intcode.Proofs.Turns
set_option autoImplicit false

/-!
Typing input while a program runs comes to the same as having it ready at the start. Each turn of an
interactive session ends where input is missing, so one turn with all the lines at hand does what the
turns did one after another. What only the questions bring about, words about lines that cannot be read
as input, is not part of the comparison.
-/
namespace Intcode.Console

def Notice.entry? : Notice → Option TraceEntry
  | .trace entry => some entry
  | _ => none

namespace Session

open Machine

def Transcript.entries (t : Transcript) : List TraceEntry := t.notices.filterMap Notice.entry?

def Turn.failed (r : Turn) : Bool := r.next = .finish true

def Turn.ending (r : Turn) : Transcript := ⟨r.output, r.notices, r.machine, r.failed⟩

def rounds (o : Options) (fuel : Nat) : List String → Machine → List Turn
  | lines, m => match turn o fuel m with
    | none => []
    | some r => r :: match r.next, lines with
      | .ask, line :: lines => rounds o fuel lines (feed o r.machine line).1
      | _, _ => []

/-- The lines that are read: as many as there are questions, or all there are. -/
def heard (o : Options) (fuel : Nat) (lines : List String) (m : Machine) : List String :=
  lines.take ((rounds o fuel lines m).countP (·.next = .ask))

def printed (o : Options) (fuel : Nat) (lines : List String) (m : Machine) : String :=
  String.join ((rounds o fuel lines m).map fun r => cellText o r.output)

/-- The values in these lines, but for the lines that cannot be read as input. -/
def typed (ascii : Bool) (lines : List String) : List Cell :=
  lines.flatMap fun line => (encodeInput ascii (stripLine line)).toOption.getD []

/-- The course of a session that ends. -/
inductive Plays (o : Options) (fuel : Nat) : List String → Machine → List Turn → Transcript → Prop
  | finish {lines : List String} {m : Machine} {r : Turn} :
      turn o fuel m = some r → r.next ≠ .ask → Plays o fuel lines m [r] r.ending
  | silence {m : Machine} {r : Turn} :
      turn o fuel m = some r → r.next = .ask → Plays o fuel [] m [r] r.ending
  | answer {line : String} {lines : List String} {m : Machine} {r : Turn} {rs : List Turn}
      {t : Transcript} :
      turn o fuel m = some r → r.next = .ask → Plays o fuel lines (feed o r.machine line).1 rs t →
      Plays o fuel (line :: lines) m (r :: rs)
        (t.after r.output (r.notices ++ (feed o r.machine line).2))

section Plays
variable {o : Options} {fuel : Nat} {lines : List String} {m : Machine} {r : Turn} {rs : List Turn}
  {t : Transcript}

theorem play_of_turn {rest : List (Except FileError String)} (hr : turn o fuel m = some r)
    (hnext : r.next ≠ .ask ∨ rest = []) : play o fuel rest m = some r.ending := by
  unfold play
  rw [hr]
  cases hn : r.next with
  | ask =>
    obtain rfl : rest = [] := hnext.resolve_left (by simp [hn])
    simp [hn, Turn.ending, Turn.failed]
  | finish failed => cases failed <;> simp [hn, Turn.ending, Turn.failed]

theorem play_cons (hr : turn o fuel m = some r) (hnext : r.next = .ask) (line : String)
    (rest : List (Except FileError String)) :
    play o fuel (.ok line :: rest) m =
      (play o fuel rest (feed o r.machine line).1).map
        (.after r.output (r.notices ++ (feed o r.machine line).2)) := by
  conv_lhs => unfold play
  simp [hr, hnext]

theorem rounds_of_turn (hr : turn o fuel m = some r) (hnext : r.next ≠ .ask ∨ lines = []) :
    rounds o fuel lines m = [r] := by
  unfold rounds
  rw [hr]
  cases hn : r.next with
  | ask =>
    obtain rfl : lines = [] := hnext.resolve_left (by simp [hn])
    simp [hn]
  | finish failed => simp [hn]

theorem rounds_cons (hr : turn o fuel m = some r) (hnext : r.next = .ask) (line : String) :
    rounds o fuel (line :: lines) m = r :: rounds o fuel lines (feed o r.machine line).1 := by
  conv_lhs => unfold rounds
  simp [hr, hnext]

theorem exists_turn {rest : List (Except FileError String)} (h : play o fuel rest m = some t) :
    ∃ r, turn o fuel m = some r := by
  unfold play at h
  exact (Option.bind_eq_some_iff.mp h).imp fun _ hr => hr.1

theorem plays_of_play (h : play o fuel (lines.map .ok) m = some t) :
    Plays o fuel lines m (rounds o fuel lines m) t := by
  induction lines generalizing m t with
  | nil =>
    obtain ⟨r, hr⟩ := exists_turn h
    rw [List.map_nil, play_of_turn hr (.inr rfl), Option.some.injEq] at h
    rw [← h, rounds_of_turn hr (.inr rfl)]
    by_cases hnext : r.next = .ask
    · exact .silence hr hnext
    · exact .finish hr hnext
  | cons line lines ih =>
    obtain ⟨r, hr⟩ := exists_turn h
    by_cases hnext : r.next = .ask
    · rw [List.map_cons, play_cons hr hnext, Option.map_eq_some_iff] at h
      obtain ⟨u, hu, rfl⟩ := h
      rw [rounds_cons hr hnext]
      exact .answer hr hnext (ih hu)
    · rw [play_of_turn hr (.inl hnext), Option.some.injEq] at h
      rw [← h, rounds_of_turn hr (.inl hnext)]
      exact .finish hr hnext

/-- The lines that are read decide the session; the others might as well not be there. -/
theorem Plays.play_read (h : Plays o fuel lines m rs t) :
    play o fuel ((lines.take (rs.countP (·.next = .ask))).map .ok) m = some t := by
  induction h with
  | finish hr hnext => exact play_of_turn hr (.inl hnext)
  | silence hr hnext => exact play_of_turn hr (.inr (by simp))
  | @answer line lines m r rs t hr hnext _ ih =>
    rw [List.countP_cons_of_pos (by simp [hnext]), List.take_succ_cons, List.map_cons,
      play_cons hr hnext, ih]
    rfl

theorem Plays.output (h : Plays o fuel lines m rs t) : t.output = rs.flatMap Turn.output := by
  induction h with
  | finish hr hnext => simp [Turn.ending]
  | silence hr hnext => simp [Turn.ending]
  | answer hr hnext _ ih => simp [Transcript.after, ih]

theorem cellText_flatMap (o : Options) (rs : List Turn) :
    cellText o (rs.flatMap Turn.output) = String.join (rs.map fun r => cellText o r.output) := by
  induction rs with
  | nil => rfl
  | cons r rs ih =>
    rw [List.flatMap_cons, List.map_cons, String.join_cons, ← ih]
    simp [cellText, String.join_append]

theorem typed_nil (ascii : Bool) : typed ascii [] = [] := rfl

theorem typed_cons (ascii : Bool) (line : String) (lines : List String) :
    typed ascii (line :: lines) = typed ascii [line] ++ typed ascii lines := by
  simp [typed]

theorem feed_machine (line : String) : (feed o m line).1 = m.pushInput (typed o.ascii [line]) := by
  unfold feed typed
  cases h : encodeInput o.ascii (stripLine line) <;> simp [h, Except.toOption, pushInput_nil]

theorem entries_feed (line : String) : (feed o m line).2.filterMap Notice.entry? = [] := by
  unfold feed
  cases encodeInput o.ascii (stripLine line) <;> rfl

theorem Plays.steps_le {most : Count} (hmost : o.maxSteps = some most) (h : Plays o fuel lines m rs t)
    (hm : m.steps ≤ most) : t.machine.steps ≤ most := by
  induction h with
  | finish hr hnext => exact turn_steps_le hmost hm hr
  | silence hr hnext => exact turn_steps_le hmost hm hr
  | answer hr hnext _ ih =>
    apply ih
    rw [feed_machine]
    exact turn_steps_le hmost hm hr

end Plays

section Unattended
variable {o : Options} {fuel : Nat} {lines : List String} {m : Machine} {r : Turn} {rs : List Turn}
  {t : Transcript}

theorem closing_unattended (o : Options) (answer : Except MachineError State × Machine) :
    closing { o with interactive := false } answer =
      { closing { o with interactive := true } answer with
        next := .finish (closing { o with interactive := true } answer).failed } := by
  rcases answer with ⟨result, after⟩
  cases result with
  | error e => rfl
  | ok s => cases s <;> rfl

theorem turn_unattended (h : turn { o with interactive := true } fuel m = some r) :
    turn { o with interactive := false } fuel m = some { r with next := .finish r.failed } := by
  by_cases hspent : Spent o m
  · have hspent' : ∀ b, Spent { o with interactive := b } m := fun _ => hspent
    rw [turn_of_spent (hspent' true)] at h
    rw [turn_of_spent (hspent' false)]
    cases h
    rfl
  · have hspent' : ∀ b, ¬ Spent { o with interactive := b } m := fun _ => hspent
    rw [turn_eq_closing (hspent' true), Option.map_eq_some_iff] at h
    obtain ⟨answer, hp, rfl⟩ := h
    have hp' : proceed { o with interactive := false } fuel m = some answer := hp
    rw [turn_eq_closing (hspent' false), hp', Option.map_some, closing_unattended]

theorem Starved.unattended {k : Nat} {last after : Machine}
    (h : Starved { o with interactive := true } fuel m r k last after) :
    Starved { o with interactive := false } fuel m r k last after :=
  ⟨h.unspent, h.runs, h.starves, h.inside, h.output, h.notices, h.machine⟩

/-- The machine that has all the values that are going to be typed gets in one turn where the session
gets in many. -/
theorem Plays.single_turn (h : Plays { o with interactive := true } fuel lines m rs t) :
    ∃ fuel' b,
      turn { o with interactive := false } fuel'
        (m.pushInput (typed o.ascii (lines.take (rs.countP (·.next = .ask))))) = some b ∧
      b.output = t.output ∧ b.notices.filterMap Notice.entry? = t.entries ∧ b.machine = t.machine ∧
      b.next = .finish t.failed := by
  induction h with
  | @finish lines m r hr hnext =>
    refine ⟨fuel, { r with next := .finish r.failed }, ?_, rfl, rfl, rfl, rfl⟩
    rw [List.countP_singleton, if_neg (by simpa using hnext), List.take_zero, typed_nil, pushInput_nil]
    exact turn_unattended hr
  | @silence m r hr hnext =>
    refine ⟨fuel, { r with next := .finish r.failed }, ?_, rfl, rfl, rfl, rfl⟩
    rw [List.take_nil, typed_nil, pushInput_nil]
    exact turn_unattended hr
  | @answer line lines m r rs t hr hnext _ ih =>
    obtain ⟨fuel', b, hb, houtput, hentries, hmachine, hfinish⟩ := ih
    obtain ⟨k, last, after, hstarved⟩ := exists_starved_of_ask hr hnext
    rw [feed_machine, pushInput_append] at hb
    have hone := hstarved.unattended.turn_pushInput _ hb
    rw [List.countP_cons_of_pos (by simp [hnext]), List.take_succ_cons, typed_cons]
    refine ⟨k + fuel', _, hone, ?_, ?_, hmachine, hfinish⟩
    · simp [Transcript.after, houtput]
    · have hfeed := entries_feed (o := { o with interactive := true }) (m := r.machine) line
      simp only [Transcript.entries] at hentries
      simp [Transcript.entries, Transcript.after, hentries, hfeed]

end Unattended

theorem stdout_closeSession (o : Options) (d : Directory) (t : Transcript) :
    (closeSession o d t).stdout = cellText o t.output := by
  unfold closeSession
  split
  · rfl
  · split <;> rfl

theorem code_closeSession {o : Options} (hnone : o.snapshot = none) (d : Directory) (t : Transcript) :
    (closeSession o d t).code = if t.failed then 1 else 0 := by
  simp [closeSession, hnone]

theorem build_pushInput {program : Array Cell} {input : List Cell} {config : Config} {m : Machine}
    (h : Machine.build program input config = .ok m) (values : List Cell) :
    Machine.build program (input ++ values) config = .ok (m.pushInput values) := by
  obtain ⟨hleast, hceiling, rfl⟩ := build_eq_ok_iff.mp h
  exact build_eq_ok_iff.mpr ⟨hleast, hceiling, rfl⟩

section Listener

def listener : Array Cell := #[3, 0, 99]

def listenerFirst : Fetched := ⟨0, 3, ⟨.input, [.position]⟩⟩

structure Listens (m : Machine) : Prop where
  live : m.state.isTerminal = false
  regs : m.regs = {}
  mem : m.mem = (fresh listener [] {}).mem

section Listens
variable {m : Machine} (h : Listens m)
include h

theorem Listens.size : m.mem.size = 8192 := by
  rw [h.mem]
  exact size_fresh

theorem Listens.fetch : m.fetch = .ok listenerFirst := by
  refine fetch_eq_ok_iff.mpr ⟨by rw [h.regs]; rfl, ?_, ?_, rfl⟩
  · rw [h.size]
    decide
  · rw [h.mem, tape_fresh]
    rfl

theorem Listens.step_starved (hin : m.input = []) :
    m.step = (.ok .blocked, { m with state := .blocked }) :=
  step_of_starved h.live h.fetch (effect_eq_none_iff.mpr ⟨rfl, hin⟩)

theorem Listens.step_fed (hin : m.input ≠ []) :
    m.step.1 = .ok (.executed listenerFirst.instruction) := by
  have hplace : m.place listenerFirst 0 = 0 := by
    have hraw : m.raw listenerFirst 0 = 0 := by
      rw [Machine.raw, h.mem, tape_fresh]
      rfl
    rw [Machine.place, hraw]
    rfl
  have hsize := h.size
  have hacc : m.Accessible listenerFirst 0 :=
    { cell := .inl (by rw [hsize]; decide)
      address := fun _ => by rw [hplace]; decide
      read := fun hread => nomatch hread
      write := fun _ => by
        rw [hplace]
        exact ⟨.inl (by rw [hsize]; decide), .inl (by rw [hsize]; decide)⟩ }
  have heffect := effect_eq_some_iff (m := m) (f := listenerFirst) (e := m.planned listenerFirst) rfl
  have hall : ∀ k < 1, m.Accessible listenerFirst k := by
    intro k hk
    obtain rfl : k = 0 := by omega
    exact hacc
  rw [step_of_effect h.live h.fetch (heffect.mpr ⟨fun _ => hin, hall, rfl⟩)]
  rfl

end Listens

def brief (interactive : Bool) : Options := { interactive, maxSteps := some 1 }

theorem turn_brief {m : Machine} (hlive : m.state.isTerminal = false) (hsteps : m.steps = 0) :
    turn (brief true) 0 m = (settle (brief true) (advance 1 m)).map (closing (brief true)) := by
  have hunspent : ¬ Spent (brief true) m := by
    rintro ⟨most, hmost, hle⟩
    cases hmost
    rw [hsteps] at hle
    exact absurd hle (by decide)
  rw [turn_eq_closing hunspent, proceed_eq_settle hlive]
  simp only [room, brief, hsteps]
  rfl

def asking (m : Machine) : Machine := { m with state := .blocked }.clearTrace.clearOutput

theorem Listens.asking {m : Machine} (h : Listens m) (values : List Cell) :
    Listens ((asking m).pushInput values) := ⟨rfl, h.regs, h.mem⟩

theorem turn_brief_starved {m : Machine} (h : Listens m) (hsteps : m.steps = 0) (hin : m.input = []) :
    ∃ r, turn (brief true) 0 m = some r ∧ r.next = .ask ∧ r.machine = asking m := by
  refine ⟨closing (brief true) (.ok .blocked, { m with state := .blocked }), ?_, rfl, rfl⟩
  rw [turn_brief h.live hsteps]
  unfold advance
  rw [h.step_starved hin]
  rfl

theorem turn_brief_fed {m : Machine} (h : Listens m) (hsteps : m.steps = 0) (hin : m.input ≠ []) :
    ∃ r, turn (brief true) 0 m = some r ∧ r.next ≠ .ask := by
  have hstep : m.step = (.ok (.executed listenerFirst.instruction), m.step.2) :=
    Prod.ext (h.step_fed hin) rfl
  have hstate : m.step.2.state = .running := step_state hstep
  refine ⟨closing (brief true) (.ok .running, m.step.2), ?_, by simp [closing, follow]⟩
  rw [turn_brief h.live hsteps]
  unfold advance
  rw [hstep]
  simp only [advance, settle, brief, Stop.result?, Option.getD_none, hstate, Option.map_some]

-- Said of any machine that holds the program, so that no row of cells is computed.
theorem session_listener {m : Machine} (h : Listens m) (hsteps : m.steps = 0) (hin : m.input = []) :
    (∃ t, play (brief true) 0 [.ok "x", .ok "7", .ok "9"] m = some t) ∧
      heard (brief true) 0 ["x", "7", "9"] m = ["x", "7"] := by
  have hignored : ∀ n, (feed (brief true) n "x").1 = n.pushInput [] := by
    have hnothing : typed false ["x"] = [] := by decide +kernel
    intro n
    rw [feed_machine, brief, hnothing]
  have hread : ∀ n, (feed (brief true) n "7").1 = n.pushInput [7] := by
    have hseven : typed false ["7"] = [7] := by decide +kernel
    intro n
    rw [feed_machine, brief, hseven]
  have hin' : ((asking m).pushInput []).input = [] := by rw [pushInput_nil]; exact hin
  obtain ⟨r₁, hr₁, hask₁, hm₁⟩ := turn_brief_starved h hsteps hin
  obtain ⟨r₂, hr₂, hask₂, hm₂⟩ := turn_brief_starved (h.asking []) hsteps hin'
  obtain ⟨r₃, hr₃, hends⟩ := turn_brief_fed ((h.asking []).asking [7]) hsteps (by simp [pushInput])
  constructor
  · rw [play_cons hr₁ hask₁, hm₁, hignored, play_cons hr₂ hask₂, hm₂, hread, play_of_turn hr₃ (.inl hends)]
    exact ⟨_, rfl⟩
  · rw [heard, rounds_cons hr₁ hask₁, hm₁, hignored, rounds_cons hr₂ hask₂, hm₂, hread,
      rounds_of_turn hr₃ (.inl hends)]
    simp [hask₁, hask₂, hends]

end Listener

end Session

end Intcode.Console
