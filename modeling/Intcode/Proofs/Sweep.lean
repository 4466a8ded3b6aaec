import Intcode.Listing
set_option autoImplicit false

/-!
The linear sweep. A line is an instruction exactly where a word decodes and the whole instruction is there,
and one cell of data everywhere else. So every line takes up at least one cell and none that is not there,
and the lines of a sweep follow on one another to the end: the sweep stops after as many lines as there are
cells at the latest, and the cells of its lines are the row again.
-/
namespace Intcode

theorem Instruction.width_le (i : Instruction) : i.width ≤ 4 := by
  have harity := i.opcode.arity_le
  simp only [width, Opcode.width]
  omega

theorem Statement.width_le (s : Statement) : s.width ≤ 4 := by
  cases s with
  | instruction i params => exact i.width_le
  | data word => simp [width]

namespace Listing

/-- The word at the address decodes to the instruction, and its parameters are all there. -/
def Whole (cells : Array Cell) (address : Nat) (i : Instruction) : Prop :=
  decode (cells.getD address 0) = .ok i ∧ address + i.width ≤ cells.size

def slice? (cells : Array Cell) (start stop : Nat) : Option (Array Cell) :=
  if start ≤ stop ∧ stop ≤ cells.size then some (cells.extract start stop) else none

variable {cells : Array Cell} {a stop : Nat} {i : Instruction} {l : Line} {ls : List Line}

theorem lineAt_of_whole (h : Whole cells a i) :
    lineAt cells a = ⟨a, .instruction i (cells.extract (a + 1) (a + i.width)).toList⟩ := by
  simp only [lineAt, h.1, if_pos h.2]

theorem lineAt_of_not_whole (h : ∀ i, ¬ Whole cells a i) :
    lineAt cells a = ⟨a, .data (cells.getD a 0)⟩ := by
  cases hd : decode (cells.getD a 0) with
  | error e => simp only [lineAt, hd]
  | ok i =>
    have hcut : ¬ a + i.width ≤ cells.size := fun hfits => h i ⟨hd, hfits⟩
    simp only [lineAt, hd, if_neg hcut]

@[simp] theorem address_lineAt (cells : Array Cell) (a : Nat) : (lineAt cells a).address = a := by
  by_cases h : ∃ i, Whole cells a i
  · obtain ⟨i, hi⟩ := h
    rw [lineAt_of_whole hi]
  · rw [lineAt_of_not_whole (not_exists.mp h)]

theorem width_lineAt_of_whole (h : Whole cells a i) : (lineAt cells a).width = i.width := by
  rw [lineAt_of_whole h]
  rfl

theorem width_lineAt_of_not_whole (h : ∀ i, ¬ Whole cells a i) : (lineAt cells a).width = 1 := by
  rw [lineAt_of_not_whole h]
  rfl

theorem lineAt_inside (h : a < cells.size) : a + (lineAt cells a).width ≤ cells.size := by
  by_cases hw : ∃ i, Whole cells a i
  · obtain ⟨i, hi⟩ := hw
    rw [width_lineAt_of_whole hi]
    exact hi.2
  · rw [width_lineAt_of_not_whole (not_exists.mp hw)]
    exact h

/-- The line covers one to four cells of the row. It has the width of the instruction at its address if
that is there as a whole, and otherwise it is one cell wide. Every cell that is looked up for it exists. -/
structure Describes (cells : Array Cell) (l : Line) : Prop where
  one_le_width : 1 ≤ l.width
  width_le_four : l.width ≤ 4
  width_eq_iff : ∀ i, decode (cells.getD l.address 0) = .ok i →
    (l.width = i.width ↔ l.address + i.width ≤ cells.size)
  width_eq_one : (∀ i, ¬ Whole cells l.address i) → l.width = 1
  raw : ∃ raw, slice? cells l.address (l.address + l.width) = some raw ∧ rawText cells l = Program.format raw
  params : ∀ i params, l.statement = .instruction i params →
    slice? cells (l.address + 1) (l.address + i.width) = some params.toArray

theorem describes_lineAt (h : a < cells.size) : Describes cells (lineAt cells a) where
  one_le_width := (lineAt cells a).statement.width_pos
  width_le_four := (lineAt cells a).statement.width_le
  width_eq_iff i hd := by
    rw [address_lineAt] at hd ⊢
    constructor
    · intro hwidth
      have hinside := lineAt_inside h
      omega
    · intro hfits
      exact width_lineAt_of_whole ⟨hd, hfits⟩
  width_eq_one hnone := by
    rw [address_lineAt] at hnone
    exact width_lineAt_of_not_whole hnone
  raw := by
    refine ⟨_, if_pos ⟨Nat.le_add_right .., ?_⟩, rfl⟩
    rw [address_lineAt]
    exact lineAt_inside h
  params i params hstatement := by
    by_cases hw : ∃ i, Whole cells a i
    · obtain ⟨j, hj⟩ := hw
      rw [lineAt_of_whole hj] at hstatement ⊢
      obtain ⟨rfl, rfl⟩ := Statement.instruction.inj hstatement
      have hrange : a + 1 ≤ a + j.width ∧ a + j.width ≤ cells.size :=
        ⟨Nat.add_le_add_left (Nat.le_add_left ..) a, hj.2⟩
      simp only [slice?, if_pos hrange]
    · rw [lineAt_of_not_whole (not_exists.mp hw)] at hstatement
      cases hstatement

/-- The lines follow on one another, from `start` on and up to `stop`. -/
inductive Spans : Nat → List Line → Nat → Prop
  | nil (stop : Nat) : Spans stop [] stop
  | cons {l : Line} {rest : List Line} {stop : Nat} :
      Spans (l.address + l.width) rest stop → Spans l.address (l :: rest) stop

theorem sweep_of_lt (h : a < cells.size) :
    sweep cells a = lineAt cells a :: sweep cells (a + (lineAt cells a).width) := by
  rw [sweep, if_pos h]

theorem sweep_of_le (h : cells.size ≤ a) : sweep cells a = [] := by
  rw [sweep, if_neg (Nat.not_lt.mpr h)]

theorem spans_sweep (h : a ≤ cells.size) : Spans a (sweep cells a) cells.size := by
  induction a using sweep.induct cells with
  | case1 a hlt line ih =>
    rw [sweep_of_lt hlt]
    have hrest := Spans.cons (l := lineAt cells a)
      (by rw [address_lineAt]; exact ih (lineAt_inside hlt))
    rwa [address_lineAt] at hrest
  | case2 a hle =>
    obtain rfl : a = cells.size := by omega
    rw [sweep_of_le (Nat.le_refl _)]
    exact .nil _

theorem exists_of_mem_sweep (h : l ∈ sweep cells a) : ∃ b < cells.size, l = lineAt cells b := by
  induction a using sweep.induct cells with
  | case1 a hlt line ih =>
    rw [sweep_of_lt hlt] at h
    obtain rfl | h := List.mem_cons.mp h
    · exact ⟨a, hlt, rfl⟩
    · exact ih h
  | case2 a hle => simp [sweep_of_le (Nat.not_lt.mp hle)] at h

theorem length_sweep_le (cells : Array Cell) (a : Nat) : (sweep cells a).length ≤ cells.size - a := by
  induction a using sweep.induct cells with
  | case1 a hlt line ih =>
    have hpos : 0 < (lineAt cells a).width := (lineAt cells a).statement.width_pos
    rw [sweep_of_lt hlt, List.length_cons]
    simp only [line] at ih
    omega
  | case2 a hle => simp [sweep_of_le (Nat.not_lt.mp hle)]

def covered (cells : Array Cell) (l : Line) : List Cell :=
  (cells.extract l.address (l.address + l.width)).toList

theorem covered_ne_nil (h : l ∈ sweep cells a) : covered cells l ≠ [] := by
  obtain ⟨b, hb, rfl⟩ := exists_of_mem_sweep h
  have hpos : 0 < (lineAt cells b).width := (lineAt cells b).statement.width_pos
  have hlength : (covered cells (lineAt cells b)).length ≠ 0 := by
    simp only [covered, address_lineAt, Array.length_toList, Array.size_extract]
    omega
  exact fun hnil => hlength (by rw [hnil, List.length_nil])

theorem flatMap_covered_sweep (h : a ≤ cells.size) :
    (sweep cells a).flatMap (covered cells) = cells.toList.drop a := by
  induction a using sweep.induct cells with
  | case1 a hlt line ih =>
    rw [sweep_of_lt hlt, List.flatMap_cons, ih (lineAt_inside hlt)]
    simp only [covered, address_lineAt, Array.toList_extract, List.extract_eq_take_drop, line,
      Nat.add_sub_cancel_left]
    rw [← List.drop_drop, List.take_append_drop]
  | case2 a hle =>
    rw [sweep_of_le (Nat.not_lt.mp hle), List.flatMap_nil, List.drop_eq_nil_of_le (Nat.not_lt.mp hle)]

theorem flatMap_covered_lines (cells : Array Cell) : (lines cells).flatMap (covered cells) = cells.toList :=
  flatMap_covered_sweep (Nat.zero_le _)

theorem describes_of_mem_lines (h : l ∈ lines cells) : Describes cells l := by
  obtain ⟨b, hb, rfl⟩ := exists_of_mem_sweep h
  exact describes_lineAt hb

end Listing

end Intcode
