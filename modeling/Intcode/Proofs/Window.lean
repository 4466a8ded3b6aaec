import Intcode.Debugger.Window
import Intcode.Proofs.Operands
import Intcode.Proofs.Sweep
import Mathlib.Data.Option.Basic
set_option autoImplicit false

/-!
The window around the program counter. Its rows are lines of a sweep that follow on one another, and as long
as the program counter is inside the memory, the line that covers it is one of them. The sweep ends early,
but never inside the instruction at the program counter. `Debugger.window?` keeps every sum in the range of
its machine number and looks every cell up; it always comes to the same rows.
-/
namespace Intcode

namespace Listing

variable {cells : Array Cell} {a b stop : Nat} {i : Instruction} {l : Line}

theorem le_address_of_mem_sweep (h : l ∈ sweep cells a) : a ≤ l.address := by
  induction a using sweep.induct cells with
  | case1 a hlt line ih =>
    rw [sweep_of_lt hlt] at h
    obtain rfl | h := List.mem_cons.mp h
    · exact Nat.le_of_eq (address_lineAt cells a).symm
    · have hle := ih h
      omega
  | case2 a hle => simp [sweep_of_le (Nat.not_lt.mp hle)] at h

theorem pairwise_address_sweep (cells : Array Cell) (a : Nat) :
    (sweep cells a).Pairwise fun l l' => l.address < l'.address := by
  induction a using sweep.induct cells with
  | case1 a hlt line ih =>
    rw [sweep_of_lt hlt]
    refine List.pairwise_cons.mpr ⟨?_, ih⟩
    intro l hl
    have hpos : 0 < (lineAt cells a).width := (lineAt cells a).statement.width_pos
    have hle : a + (lineAt cells a).width ≤ l.address := le_address_of_mem_sweep hl
    rw [address_lineAt]
    omega
  | case2 a hle =>
    rw [sweep_of_le (Nat.not_lt.mp hle)]
    exact .nil

theorem exists_covering (hb : b ≤ a) (ha : a < cells.size) : ∃ n l,
    ((sweep cells b).findIdx? fun l => (a : Int) < (l.address + l.width : Nat)) = some n ∧
      (sweep cells b)[n]? = some l ∧ l.address ≤ a ∧ a < l.address + l.width := by
  induction b using sweep.induct cells with
  | case1 b hlt line ih =>
    rw [sweep_of_lt hlt, List.findIdx?_cons]
    by_cases hend : a < b + (lineAt cells b).width
    · refine ⟨0, lineAt cells b, ?_, rfl, ?_, ?_⟩
      · rw [address_lineAt, if_pos (by simpa using Int.ofNat_lt.mpr hend)]
      · rwa [address_lineAt]
      · rwa [address_lineAt]
    · obtain ⟨n, l, hfound, hget, hcover⟩ := ih (Nat.not_lt.mp hend)
      refine ⟨n + 1, l, ?_, hget, hcover⟩
      rw [address_lineAt, if_neg (by simpa using Int.ofNat_le.mpr (Nat.not_lt.mp hend)), hfound]
      rfl
  | case2 b hle => omega

theorem getD_extract (ha : a < stop) (hstop : stop ≤ cells.size) :
    (cells.extract 0 stop).getD a 0 = cells.getD a 0 := by
  have hin : a < cells.size := by omega
  simp [Array.getD_eq_getD_getElem?, ha, hstop, hin]

theorem whole_extract_iff (ha : a < stop) (hreach : min (a + 4) cells.size ≤ stop)
    (hstop : stop ≤ cells.size) : Whole (cells.extract 0 stop) a i ↔ Whole cells a i := by
  have hsize : (cells.extract 0 stop).size = stop := by
    rw [Array.size_extract]
    omega
  have hwidth := i.width_le
  rw [Whole, Whole, getD_extract ha hstop, hsize]
  refine and_congr_right fun _ => ?_
  omega

/-- No instruction is longer than four cells. -/
theorem lineAt_extract (ha : a < stop) (hreach : min (a + 4) cells.size ≤ stop)
    (hstop : stop ≤ cells.size) : lineAt (cells.extract 0 stop) a = lineAt cells a := by
  by_cases hwhole : ∃ i, Whole cells a i
  · obtain ⟨i, hi⟩ := hwhole
    have hi' := (whole_extract_iff ha hreach hstop).mpr hi
    have hfits : a + i.width ≤ stop := by
      have hinside := hi.2
      have hwidth := i.width_le
      omega
    rw [lineAt_of_whole hi, lineAt_of_whole hi', Array.extract_extract, Nat.zero_add, Nat.zero_add,
      Nat.min_eq_left hfits]
  · have hnone := not_exists.mp hwhole
    have hnone' (i : Instruction) : ¬ Whole (cells.extract 0 stop) a i :=
      mt (whole_extract_iff ha hreach hstop).mp (hnone i)
    rw [lineAt_of_not_whole hnone, lineAt_of_not_whole hnone', getD_extract ha hstop]

def lineAt? (cells : Array Cell) (address : Nat) : Option Line :=
  let word := cells.getD address 0
  match decode word with
  | .ok i => do
    guard (Count.Holds (address + i.width))
    if address + i.width ≤ cells.size then
      let params ← slice? cells (address + 1) (address + i.width)
      return ⟨address, .instruction i params.toList⟩
    else return ⟨address, .data word⟩
  | .error _ => return ⟨address, .data word⟩

def sweep? (cells : Array Cell) (address : Nat) : Option (List Line) :=
  if address < cells.size then do
    let line ← lineAt? cells address
    guard (Count.Holds (address + line.width))
    return line :: (← sweep? cells (address + line.width))
  else return []
termination_by cells.size - address
decreasing_by
  have hpos := line.statement.width_pos
  simp only [Line.width]
  omega

section Ranges
variable (hroom : cells.size ≤ Memory.ceiling)
include hroom

theorem holds_of_le (h : a ≤ cells.size + 4) : Count.Holds a := by
  unfold Memory.ceiling at hroom
  unfold Count.Holds Count.greatest
  omega

theorem lineAt?_eq (ha : a < cells.size) : lineAt? cells a = some (lineAt cells a) := by
  cases hd : decode (cells.getD a 0) with
  | error e =>
    simp only [lineAt?, lineAt, hd]
    rfl
  | ok i =>
    have hwidth := i.width_le
    have hholds : Count.Holds (a + i.width) := holds_of_le hroom (by omega)
    simp only [lineAt?, lineAt, hd, Fallible.guard_bind hholds]
    by_cases hfits : a + i.width ≤ cells.size
    · have hslice : slice? cells (a + 1) (a + i.width) = some (cells.extract (a + 1) (a + i.width)) :=
        if_pos ⟨Nat.add_le_add_left (Nat.le_add_left ..) a, hfits⟩
      rw [if_pos hfits, if_pos hfits, hslice]
      rfl
    · rw [if_neg hfits, if_neg hfits]
      rfl

theorem sweep?_eq (a : Nat) : sweep? cells a = some (sweep cells a) := by
  induction a using sweep.induct cells with
  | case1 a hlt line ih =>
    have hinside := lineAt_inside hlt
    have hholds : Count.Holds (a + (lineAt cells a).width) := holds_of_le hroom (by omega)
    have hrest : sweep? cells (a + (lineAt cells a).width) =
      some (sweep cells (a + (lineAt cells a).width)) := ih
    rw [sweep?, if_pos hlt, lineAt?_eq hroom hlt, sweep_of_lt hlt, Option.bind_eq_bind,
      Option.bind_some, Fallible.guard_bind hholds, hrest]
    rfl
  | case2 a hle =>
    rw [sweep?, if_neg hle, sweep_of_le (Nat.not_lt.mp hle)]
    rfl

end Ranges

end Listing

namespace Debugger

def row (pc : Cell) (l : Line) : WindowRow := ⟨l.address, l.text, (l.address : Int) = pc.toInt⟩

/-- The window, if all its sums are in range and the cells that are swept are there. The places of lines are
compared with the program counter as cells. -/
def window? (d : Debugger) (height : Nat) : Option (List WindowRow) := do
  guard (d.pc < 0 ∨ Count.Holds (d.pc.toUInt64.toNat + 4))
  let cells ← Listing.slice? d.machine.mem.cells 0 d.span
  let lines ← Listing.sweep? cells 0
  guard (∀ l ∈ lines, Cell.Holds (l.address + l.width))
  let start := currentLine d.pc lines - height / 2
  return ((lines.drop start).take height).map (row d.pc)

variable {d : Debugger} {n a : Nat}

theorem span_le (d : Debugger) : d.span ≤ d.machine.mem.size := Nat.min_le_right ..

theorem window_eq (d : Debugger) (n : Nat) : d.window n =
    ((d.listing.drop (currentLine d.pc d.listing - n / 2)).take n).map (row d.pc) := rfl

theorem window?_eq (hroom : d.machine.mem.size ≤ Memory.ceiling) : d.window? n = some (d.window n) := by
  have hspan : d.span ≤ d.machine.mem.cells.size := d.span_le
  have hroom' : d.machine.mem.cells.size ≤ Memory.ceiling := hroom
  have hsize : (d.machine.mem.cells.extract 0 d.span).size ≤ Memory.ceiling := by
    rw [Array.size_extract]
    omega
  have hreach : d.pc < 0 ∨ Count.Holds (d.pc.toUInt64.toNat + 4) := by
    by_cases hneg : d.pc < 0
    · exact .inl hneg
    · have hle := d.pc.toInt_le_greatest
      rw [Cell.toNat_toUInt64 (Cell.nonneg_of_not_lt hneg)]
      unfold Cell.greatest at hle
      unfold Count.Holds Count.greatest
      exact .inr (by omega)
  have hslice : Listing.slice? d.machine.mem.cells 0 d.span = some (d.machine.mem.cells.extract 0 d.span) :=
    if_pos ⟨Nat.zero_le _, hspan⟩
  have hsweep : Listing.sweep? (d.machine.mem.cells.extract 0 d.span) 0 = some d.listing :=
    Listing.sweep?_eq hsize 0
  have hlines : ∀ l ∈ d.listing, Cell.Holds (l.address + l.width) := by
    intro l hl
    obtain ⟨b, hb, rfl⟩ := Listing.exists_of_mem_sweep hl
    have hinside := Listing.lineAt_inside hb
    rw [Listing.address_lineAt]
    unfold Memory.ceiling at hsize
    unfold Cell.Holds Cell.greatest
    omega
  rw [window?, Fallible.guard_bind hreach, hslice, Option.bind_eq_bind, Option.bind_some, hsweep,
    Option.bind_eq_bind, Option.bind_some, Fallible.guard_bind hlines]
  rfl

theorem length_window_le (d : Debugger) (n : Nat) : (d.window n).length ≤ n := by
  rw [window_eq, List.length_map]
  exact List.length_take_le ..

theorem exists_infix (d : Debugger) (n : Nat) :
    ∃ shown, shown <:+: d.listing ∧ d.window n = shown.map (row d.pc) :=
  ⟨_, (List.take_prefix ..).isInfix.trans (List.drop_suffix ..).isInfix, window_eq d n⟩

theorem pairwise_address_window (d : Debugger) (n : Nat) :
    (d.window n).Pairwise fun r r' => r.address < r'.address := by
  obtain ⟨shown, hshown, heq⟩ := d.exists_infix n
  have hlisting := Listing.pairwise_address_sweep (d.machine.mem.cells.extract 0 d.span) 0
  rw [heq, List.pairwise_map]
  exact hlisting.sublist hshown.sublist

theorem isCurrent_iff {r : WindowRow} (h : r ∈ d.window n) :
    r.isCurrent = true ↔ (r.address : Int) = d.pc.toInt := by
  rw [window_eq] at h
  obtain ⟨l, _, rfl⟩ := List.mem_map.mp h
  exact decide_eq_true_iff

theorem countP_isCurrent_le (d : Debugger) (n : Nat) : (d.window n).countP (·.isCurrent) ≤ 1 := by
  rw [List.countP_eq_length_filter]
  have hpairs := (pairwise_address_window d n).filter (·.isCurrent)
  have hmarked : ∀ r ∈ (d.window n).filter (·.isCurrent), (r.address : Int) = d.pc.toInt := by
    intro r hr
    obtain ⟨hmem, hcurrent⟩ := List.mem_filter.mp hr
    exact (isCurrent_iff hmem).mp hcurrent
  cases hrows : (d.window n).filter (·.isCurrent) with
  | nil => exact Nat.zero_le 1
  | cons r rest =>
    cases rest with
    | nil => exact Nat.le_refl 1
    | cons r' rest =>
      rw [hrows] at hpairs hmarked
      have hlt := List.rel_of_pairwise_cons hpairs List.mem_cons_self
      have hr := hmarked r List.mem_cons_self
      have hr' := hmarked r' (List.mem_cons_of_mem _ List.mem_cons_self)
      omega

theorem reach_le_span (hpc : d.pc.toInt = a) : min (a + 4) d.machine.mem.size ≤ d.span := by
  obtain ⟨hneg, hnat⟩ := Cell.address_of_toInt hpc
  simp only [span, hneg, if_false, hnat]
  omega

theorem exists_row_covering (hn : 1 ≤ n) (hpc : d.pc.toInt = a) (ha : a < d.machine.mem.size) :
    ∃ l ∈ d.listing, l.address ≤ a ∧ a < l.address + l.width ∧ row d.pc l ∈ d.window n ∧
      (l.address = a → l.text = (Listing.lineAt d.machine.mem.cells a).text) := by
  have hreach := reach_le_span hpc
  have hspan : d.span ≤ d.machine.mem.cells.size := d.span_le
  have hsize : (d.machine.mem.cells.extract 0 d.span).size = d.span := by
    rw [Array.size_extract]
    omega
  have hswept : a < (d.machine.mem.cells.extract 0 d.span).size := by omega
  obtain ⟨i, l, hfound, hget, hle, hlt⟩ := Listing.exists_covering (Nat.zero_le a) hswept
  have hcurrent : currentLine d.pc d.listing = i := by
    rw [currentLine, hpc, listing, Listing.lines, hfound]
    rfl
  have hmem : l ∈ d.listing := List.mem_of_getElem? hget
  refine ⟨l, hmem, hle, hlt, ?_, ?_⟩
  · rw [window_eq, hcurrent]
    refine List.mem_map_of_mem (List.mem_of_getElem? (i := i - (i - n / 2)) ?_)
    rw [List.getElem?_take_of_lt (by omega), List.getElem?_drop, Nat.add_sub_cancel' (Nat.sub_le ..)]
    exact hget
  · rintro rfl
    obtain ⟨b, _, rfl⟩ := Listing.exists_of_mem_sweep hmem
    rw [Listing.address_lineAt] at hswept hreach ⊢
    rw [Listing.lineAt_extract (by omega) hreach hspan]

/-- The window comes about without a fault, the memory being no larger than what can be allocated. It has no more
rows than were asked for, and these are lines of the sweep that follow on one another. The row at the program
counter is marked and no other is. And with the program counter inside the memory, the line that covers it is
shown, with its full text if it starts there. -/
theorem window_shows_pc (d : Debugger) (n : Nat) :
    (d.machine.mem.size ≤ Memory.ceiling → d.window? n = some (d.window n)) ∧ (d.window n).length ≤ n ∧
    (d.span ≤ d.machine.mem.size ∧
      ∃ shown, shown <:+: Listing.lines (d.machine.mem.cells.extract 0 d.span) ∧
        d.window n = shown.map (row d.pc)) ∧
    (∀ r ∈ d.window n, r.isCurrent = true ↔ (r.address : Int) = d.pc.toInt) ∧
    (d.window n).countP (·.isCurrent) ≤ 1 ∧
    (1 ≤ n → ∀ a : Nat, d.pc.toInt = a → a < d.machine.mem.size →
      ∃ l ∈ Listing.lines (d.machine.mem.cells.extract 0 d.span), l.address ≤ a ∧ a < l.address + l.width ∧
        row d.pc l ∈ d.window n ∧
        (l.address = a → l.text = (Listing.lineAt d.machine.mem.cells a).text)) :=
  ⟨window?_eq, length_window_le d n, ⟨d.span_le, exists_infix d n⟩, fun _ => isCurrent_iff,
    countP_isCurrent_le d n, fun hn _ => exists_row_covering hn⟩

/-- Behind a short program the sweep ends four cells after the program counter, and the instruction there is
shown whole. One cell on, the only row is the one of the line that covers the program counter. -/
theorem window_shows_pc_cut :
    let cells : Array Cell := #[99, 1101, 5, 7, 0, 99]
    let d : Debugger :=
      { Debugger.new #[] with machine := { Machine.ofMemory #[99] [] ⟨cells, .strict, 6⟩ with regs := ⟨1, 0⟩ } }
    d.machine.mem.size ≤ Memory.ceiling ∧ d.window? 1 = some (d.window 1) ∧ d.span = 5 ∧
      (∃ l ∈ Listing.lines (cells.extract 0 5), l.address ≤ 1 ∧ 1 < l.address + l.width ∧
        row 1 l ∈ d.window 1 ∧ (l.address = 1 → l.text = (Listing.lineAt cells 1).text)) ∧
      (Listing.lineAt cells 1).text = "ADD 5, 7, [0]" ∧
      d.window 1 = [⟨1, "ADD 5, 7, [0]", true⟩] ∧
      (d.setPc 2).window 1 = [⟨1, "ADD 5, 7, [0]", false⟩] := by
  intro cells d
  have hspan : d.span = 5 := by decide
  have hswept : d.machine.mem.cells.extract 0 d.span = #[99, 1101, 5, 7, 0] := by decide
  have hswept' : (d.setPc 2).machine.mem.cells.extract 0 (d.setPc 2).span = cells := by decide
  have hlines : d.listing =
      [Listing.lineAt #[99, 1101, 5, 7, 0] 0, Listing.lineAt #[99, 1101, 5, 7, 0] 1] := by
    have hwidth : (Listing.lineAt #[99, 1101, 5, 7, 0] 0).width = 1 := by decide +kernel
    have hwidth' : (Listing.lineAt #[99, 1101, 5, 7, 0] 1).width = 4 := by decide +kernel
    rw [listing, hswept, Listing.lines, Listing.sweep_of_lt (by decide), hwidth,
      Listing.sweep_of_lt (by decide), hwidth', Listing.sweep_of_le (by decide)]
  have hlines' : (d.setPc 2).listing =
      [Listing.lineAt cells 0, Listing.lineAt cells 1, Listing.lineAt cells 5] := by
    have hwidth : (Listing.lineAt cells 0).width = 1 := by decide +kernel
    have hwidth' : (Listing.lineAt cells 1).width = 4 := by decide +kernel
    have hwidth'' : (Listing.lineAt cells 5).width = 1 := by decide +kernel
    rw [listing, hswept', Listing.lines, Listing.sweep_of_lt (by decide), hwidth,
      Listing.sweep_of_lt (by decide), hwidth', Listing.sweep_of_lt (by decide), hwidth'',
      Listing.sweep_of_le (by decide)]
  obtain ⟨hfaultless, _, _, _, _, hcovers⟩ := window_shows_pc d 1
  refine ⟨by decide, hfaultless (by decide), hspan, ?_, by decide +kernel, ?_, ?_⟩
  · rw [hspan] at hcovers
    exact hcovers (Nat.le_refl 1) 1 rfl (by decide)
  · rw [window_eq, hlines]
    decide +kernel
  · rw [window_eq, hlines']
    decide +kernel

end Debugger

end Intcode
