import Intcode.Proofs.AssemblyText
import Intcode.Proofs.ProgramText
import Mathlib.Data.List.DropRight
set_option autoImplicit false

/-!
The text of a listing. No row is broken in two, and what stands behind the last space of a row are its raw
cells, however wide the columns before have become. So the raw columns can be read from the text alone;
joined by commas they are the text of the program, and listings of different programs differ.
-/
namespace Intcode

open Text

section Joined
variable {separator : String} {groups : List (List String)}

theorem intercalate_flatten (h : ∀ g ∈ groups, g ≠ []) :
    separator.intercalate (groups.map separator.intercalate) = separator.intercalate groups.flatten := by
  induction groups with
  | nil => rfl
  | cons g groups ih =>
    obtain ⟨hg, hgroups⟩ := List.forall_mem_cons.mp h
    by_cases hnil : groups = []
    · simp [hnil]
    · have hrest : groups.flatten ≠ [] := by
        obtain ⟨g', hg'⟩ := List.exists_mem_of_ne_nil _ hnil
        exact fun hflat => hgroups g' hg' (List.flatten_eq_nil_iff.mp hflat g' hg')
      rw [List.map_cons, ← List.singleton_append,
        String.intercalate_append_of_ne_nil (by simp) (by simpa using hnil), ih hgroups,
        String.intercalate_singleton, List.flatten_cons, String.intercalate_append_of_ne_nil hg hrest]

theorem mem_intercalate {separator : List Char} {ls : List (List Char)} {c : Char}
    (h : c ∈ separator.intercalate ls) : c ∈ separator ∨ ∃ l ∈ ls, c ∈ l := by
  induction ls with
  | nil => simp at h
  | cons l ls ih =>
    by_cases hls : ls = []
    · simp_all
    · rw [List.intercalate_cons_of_ne_nil hls, List.mem_append, List.mem_append] at h
      obtain (h | h) | h := h
      · exact .inr ⟨l, List.mem_cons_self, h⟩
      · exact .inl h
      · obtain h | ⟨l', hl', h⟩ := ih h
        · exact .inl h
        · exact .inr ⟨l', List.mem_cons_of_mem _ hl', h⟩

end Joined

namespace Program

theorem split_lines {separator : Char} {ls : List (List Char)} (h : ∀ l ∈ ls, separator ∉ l) :
    split separator (ls.flatMap (· ++ [separator])) = ls ++ [[]] := by
  have hjoined : [separator].intercalate (ls ++ [[]]) = ls.flatMap (· ++ [separator]) := by
    clear h
    induction ls with
    | nil => simp
    | cons l ls ih =>
      rw [List.cons_append, List.intercalate_cons_of_ne_nil (by simp), ih, List.flatMap_cons]
  refine (cuts_iff.mp ⟨by simp, ?_, hjoined⟩).symm
  intro part hpart
  obtain hpart | hpart := List.mem_append.mp hpart
  · exact h part hpart
  · simp [List.mem_singleton.mp hpart]

theorem format_eq (cells : Array Cell) : format cells = ",".intercalate (cells.toList.map toString) := by
  rw [← String.toList_inj, String.toList_intercalate, List.map_map]
  simp [format, chars, Function.comp_def, toList_toString]

theorem not_mem_format {c : Char} (hdigit : c.isDigit = false) (hsign : c ≠ '-') (hcomma : c ≠ ',')
    (cells : Array Cell) : c ∉ (format cells).toList := by
  rw [format, String.toList_ofList]
  intro h
  obtain h | ⟨part, hpart, h⟩ := mem_intercalate h
  · exact hcomma (List.mem_singleton.mp h)
  · obtain ⟨cell, _, rfl⟩ := List.mem_map.mp hpart
    exact not_mem_chars hdigit hsign _ h

theorem format_injective : Function.Injective format := by
  have hempty : ∀ p : Array Cell, format p = format #[] → p = #[] := by
    intro p h
    by_contra hne
    have hread := parse_format hne
    rw [h] at hread
    cases hread
  intro p q h
  by_cases hp : p = #[]
  · subst hp
    exact (hempty q h.symm).symm
  · by_cases hq : q = #[]
    · subst hq
      exact hempty p h
    · have hread := parse_format hp
      rw [h, parse_format hq] at hread
      exact (Except.ok.inj hread).symm

end Program

namespace Statement

theorem newline_not_mem_text (s : Statement) : '\n' ∉ s.text.toList := by
  have hkeyword : '\n' ∉ s.keyword.toList := by
    intro h
    exact absurd (isUpper_of_mem_keyword h) (by decide)
  have htail : '\n' ∉ s.tail := by
    rw [tail]
    split
    · simp
    · intro h
      obtain h | h := List.mem_cons.mp h
      · cases h
      · obtain h | ⟨_, hpart, h⟩ := mem_intercalate h
        · simp at h
        · obtain ⟨operand, hoperand, rfl⟩ := List.mem_map.mp hpart
          exact not_mem_operands rfl (by decide) (by decide) hoperand h
  rw [toList_text, List.mem_append]
  exact not_or.mpr ⟨hkeyword, htail⟩

end Statement

namespace Listing

/-- The rows of a listing: its lines, less the three of the header and the empty one after the last. -/
def rowsOf (listing : String) : List (List Char) :=
  ((Program.split '\n' listing.toList).drop 3).dropLast

/-- The raw cells of a row stand behind its last space. -/
def rawColumn (row : List Char) : String := String.ofList (row.rtakeWhile (· ≠ ' '))

def rawColumns (listing : String) : List String := (rowsOf listing).map rawColumn

def rowChars (cells : Array Cell) (l : Line) : List Char :=
  (Decimal.padded 4 l.address).toList ++ ": ".toList ++ (alignLeft 28 l.text).toList ++ " ;".toList ++
    ' ' :: (rawText cells l).toList

section Rows
variable (cells : Array Cell) (l : Line)

theorem toList_row : (row cells l).toList = rowChars cells l ++ ['\n'] := by
  simp [row, rowChars, toString]

theorem toList_text : (text cells).toList =
    ("; Intcode Disassembly".toList :: "; -------------------".toList :: [] ::
      (lines cells).map (rowChars cells)).flatMap (· ++ ['\n']) := by
  simp [text, header, String.toList_join, toList_row, List.flatMap_map]

theorem newline_not_mem_rowChars : '\n' ∉ rowChars cells l := by
  have haddress := not_mem_padded (c := '\n') rfl (by decide) 4 l.address
  have htext := not_mem_alignLeft (by decide) l.statement.newline_not_mem_text 28
  have hraw := Program.not_mem_format (c := '\n') rfl (by decide) (by decide)
    (cells.extract l.address (l.address + l.width))
  simp [rowChars, rawText, Line.text, haddress, htext, hraw]

theorem rowsOf_text : rowsOf (text cells) = (lines cells).map (rowChars cells) := by
  have hlines : ∀ row ∈ "; Intcode Disassembly".toList :: "; -------------------".toList :: [] ::
      (lines cells).map (rowChars cells), '\n' ∉ row := by
    have hrows : ∀ row ∈ (lines cells).map (rowChars cells), '\n' ∉ row := by
      intro row hrow
      obtain ⟨l, _, rfl⟩ := List.mem_map.mp hrow
      exact newline_not_mem_rowChars cells l
    simp only [List.forall_mem_cons]
    exact ⟨by decide, by decide, by decide, hrows⟩
  rw [rowsOf, toList_text, Program.split_lines hlines]
  simp

theorem rawColumn_rowChars : rawColumn (rowChars cells l) = rawText cells l := by
  have hraw := Program.not_mem_format (c := ' ') rfl (by decide) (by decide)
    (cells.extract l.address (l.address + l.width))
  have hkept : ∀ c ∈ (rawText cells l).toList.reverse, decide (c ≠ ' ') = true := by
    intro c hc
    rw [List.mem_reverse] at hc
    exact decide_eq_true fun hspace => hraw (hspace ▸ hc)
  rw [rawColumn, rowChars, List.rtakeWhile, List.reverse_append, List.reverse_cons, List.append_assoc,
    List.takeWhile_append_of_pos hkept]
  simp

theorem rawColumns_text : rawColumns (text cells) = (lines cells).map (rawText cells) := by
  rw [rawColumns, rowsOf_text, List.map_map]
  exact List.map_congr_left fun l _ => rawColumn_rowChars cells l

theorem intercalate_rawColumns : ",".intercalate (rawColumns (text cells)) = Program.format cells := by
  have hgroups : (lines cells).map (rawText cells) =
      ((lines cells).map fun l => (covered cells l).map toString).map ",".intercalate := by
    rw [List.map_map]
    exact List.map_congr_left fun l _ => Program.format_eq _
  have hne : ∀ g ∈ (lines cells).map fun l => (covered cells l).map (toString : Cell → String), g ≠ [] := by
    intro g hg
    obtain ⟨l, hl, rfl⟩ := List.mem_map.mp hg
    simpa using covered_ne_nil hl
  rw [rawColumns_text, hgroups, intercalate_flatten hne, Program.format_eq, ← flatMap_covered_lines,
    List.map_flatMap, List.flatMap_def]

theorem text_injective : Function.Injective text := by
  intro p q h
  apply Program.format_injective
  rw [← intercalate_rawColumns, ← intercalate_rawColumns, h]

end Rows

/-- A sweep ends after as many lines as the program has cells at the latest, and its lines cover the program
from address 0 to its end, each as wide as the instruction that is there as a whole, or one cell wide. The
raw columns can be read from the text, and joined by commas they are read as the program, unless that is
empty. Different programs have different listings. -/
theorem listing_covers_program :
    (∀ p : Array Cell, (lines p).length ≤ p.size ∧ Spans 0 (lines p) p.size ∧
      (∀ l ∈ lines p, Describes p l) ∧
      rawColumns (text p) = (lines p).map (rawText p) ∧
      (p ≠ #[] → Program.parse (",".intercalate (rawColumns (text p))) = .ok p)) ∧
    ∀ p q : Array Cell, text p = text q ↔ p = q := by
  refine ⟨?_, fun p q => text_injective.eq_iff⟩
  intro p
  refine ⟨length_sweep_le p 0, spans_sweep (Nat.zero_le _), fun l => describes_of_mem_lines,
    rawColumns_text p, ?_⟩
  intro hne
  rw [intercalate_rawColumns]
  exact Program.parse_format hne

/-- An addition that is cut off by the end of the program is one cell of data. -/
theorem listing_covers_program_cut :
    let p : Array Cell := #[104, -7, 1101, 5]
    p ≠ #[] ∧ Program.parse (",".intercalate (rawColumns (text p))) = .ok p ∧
      lineAt p 2 ∈ lines p ∧ decode 1101 = .ok ⟨.add, [.immediate, .immediate, .position]⟩ ∧
      (lineAt p 2).width = 1 ∧ (∀ i, ¬ Whole p 2 i) ∧ text p ≠ text #[104, -7, 1101] := by
  intro p
  have hne : p ≠ #[] := by decide
  have hdecode : decode 1101 = .ok ⟨.add, [.immediate, .immediate, .position]⟩ := by decide +kernel
  have hmem : lineAt p 2 ∈ lines p := by
    have hwidth : (lineAt p 0).width = 2 := by decide +kernel
    rw [lines, sweep_of_lt (by decide), hwidth, sweep_of_lt (by decide)]
    simp
  have hcut : ∀ i, ¬ Whole p 2 i := by
    rintro i ⟨hd, hfits⟩
    obtain rfl := Except.ok.inj (hdecode.symm.trans hd)
    exact absurd hfits (by decide)
  obtain ⟨_, _, hdescribes, _, hread⟩ := listing_covers_program.1 p
  have hwidth := (hdescribes _ hmem).width_eq_one (by rwa [address_lineAt])
  have hother := (listing_covers_program.2 p #[104, -7, 1101]).not.mpr (by decide)
  exact ⟨hne, hread hne, hmem, hdecode, hwidth, hcut, hother⟩

end Listing

end Intcode
