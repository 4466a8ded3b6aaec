import Intcode.Proofs.InstructionWords
import Intcode.Proofs.NumberText
import Intcode.Proofs.Sweep
import Mathlib.Data.List.Basic
set_option autoImplicit false

/-!
Assembly text is unambiguous. The keyword ends at the first space and names the opcode, or says that this is
data; the opcode says how many operands there are; a comma stands in none of them; and brackets, the letters
of the relative base and a plus sign tell the modes apart. So a line is known from its text.
-/
namespace Intcode

open Text

theorem takeWhile_front {c : Char} {x r : List Char} (hx : c ∉ x) (hr : ∀ d ∈ r.head?, d = c) :
    (x ++ r).takeWhile (· ≠ c) = x := by
  have hkept : ∀ d ∈ x, decide (d ≠ c) = true := by
    intro d hd
    exact decide_eq_true fun heq => hx (heq ▸ hd)
  rw [List.takeWhile_append_of_pos hkept]
  cases r with
  | nil => simp
  | cons d r => simp [hr d rfl]

theorem append_inj_of_front {c : Char} {x y r s : List Char} (hx : c ∉ x) (hy : c ∉ y)
    (hr : ∀ d ∈ r.head?, d = c) (hs : ∀ d ∈ s.head?, d = c) (h : x ++ r = y ++ s) : x = y ∧ r = s := by
  obtain rfl : x = y := by rw [← takeWhile_front hx hr, h, takeWhile_front hy hs]
  exact ⟨rfl, List.append_cancel_left h⟩

/-- As many parts on both sides, with a separator that begins with a character found in none of them. -/
theorem intercalate_inj {c : Char} {blanks : List Char} {xs ys : List (List Char)}
    (hlength : xs.length = ys.length) (hxs : ∀ x ∈ xs, c ∉ x) (hys : ∀ y ∈ ys, c ∉ y)
    (h : (c :: blanks).intercalate xs = (c :: blanks).intercalate ys) : xs = ys := by
  induction xs generalizing ys with
  | nil => exact (List.eq_nil_of_length_eq_zero hlength.symm).symm
  | cons x xs ih =>
    obtain ⟨y, ys, rfl⟩ := List.exists_cons_of_length_eq_add_one hlength.symm
    have hrest : xs.length = ys.length := Nat.succ.inj hlength
    obtain ⟨hx, hxs'⟩ := List.forall_mem_cons.mp hxs
    obtain ⟨hy, hys'⟩ := List.forall_mem_cons.mp hys
    by_cases hnil : xs = []
    · subst hnil
      obtain rfl := List.eq_nil_of_length_eq_zero hrest.symm
      simpa using h
    · have hnil' : ys ≠ [] := by
        rintro rfl
        exact hnil (List.eq_nil_of_length_eq_zero hrest)
      rw [List.intercalate_cons_of_ne_nil hnil, List.intercalate_cons_of_ne_nil hnil', List.append_assoc,
        List.append_assoc] at h
      obtain ⟨rfl, hbehind⟩ := append_inj_of_front hx hy (by simp) (by simp) h
      rw [ih hrest hxs' hys' (List.append_cancel_left hbehind)]

namespace Statement

/-- A parameter as it is written: the number itself, the number in brackets, or in brackets behind the letters
of the relative base and a sign. -/
def operandChars (mode : Mode) (raw : Cell) : List Char :=
  match mode with
  | .position => '[' :: (Decimal.chars raw.toInt ++ [']'])
  | .immediate => Decimal.chars raw.toInt
  | .relative =>
    '[' :: 'r' :: 'b' :: ((if raw < 0 then [] else ['+']) ++ (Decimal.chars raw.toInt ++ [']']))

theorem toList_operandText (mode : Mode) (raw : Cell) :
    (operandText mode raw).toList = operandChars mode raw := by
  cases mode with
  | position | immediate => simp [operandText, operandChars, toString, toList_repr]
  | relative =>
    simp only [operandText, operandChars]
    split <;> simp [toString, toList_repr]

theorem not_mem_operandText {c : Char} (hdigit : c.isDigit = false) (hsign : c ≠ '-')
    (hmark : c ∉ ['[', ']', 'r', 'b', '+']) (mode : Mode) (raw : Cell) :
    c ∉ (operandText mode raw).toList := by
  have hraw : c ∉ Decimal.chars raw.toInt := not_mem_chars hdigit hsign _
  rw [toList_operandText]
  cases mode with
  | position | immediate => simp_all [operandChars]
  | relative =>
    simp only [operandChars]
    split <;> simp_all

theorem mode_of_operandText {mode mode' : Mode} {raw raw' : Cell}
    (h : operandText mode raw = operandText mode' raw') : mode = mode' := by
  have hbracket : ∀ n, '[' ∉ Decimal.chars n := not_mem_chars rfl (by decide)
  have hletter : ∀ n, 'r' ∉ Decimal.chars n := not_mem_chars rfl (by decide)
  have hmem : ∀ c, c ∈ (operandText mode raw).toList ↔ c ∈ (operandText mode' raw').toList := by simp [h]
  have hb := hmem '['
  have hr := hmem 'r'
  simp only [toList_operandText, operandChars] at hb hr
  cases mode <;> cases mode' <;> simp [hbracket, hletter] at hb hr ⊢

theorem raw_of_operandText {mode : Mode} {raw raw' : Cell}
    (h : operandText mode raw = operandText mode raw') : raw = raw' := by
  have hplus : ∀ n, '+' ∉ Decimal.chars n := not_mem_chars rfl (by decide)
  have hlist := congrArg String.toList h
  simp only [toList_operandText, operandChars] at hlist
  apply Int64.toInt.inj
  apply chars_injective
  cases mode with
  | position => simpa using hlist
  | immediate => exact hlist
  | relative =>
    have hsign : raw < 0 ↔ raw' < 0 := by
      have hmem := congrArg ('+' ∈ ·) hlist
      by_cases hneg : raw < 0 <;> by_cases hneg' : raw' < 0 <;> simp [hneg, hneg', hplus] at hmem ⊢
    by_cases hneg : raw < 0
    · simpa [hneg, hsign.mp hneg] using hlist
    · simpa [hneg, mt hsign.mpr hneg] using hlist

theorem operandText_injective : Function.Injective fun x : Mode × Cell => operandText x.1 x.2 := by
  rintro ⟨mode, raw⟩ ⟨mode', raw'⟩ h
  have hmode : mode = mode' := mode_of_operandText h
  subst hmode
  exact congrArg (mode, ·) (raw_of_operandText h)

theorem zipWith_operandText_inj {modes modes' : List Mode} {params params' : List Cell}
    (hlength : modes.length = params.length) (hlength' : modes'.length = params'.length)
    (h : List.zipWith operandText modes params = List.zipWith operandText modes' params') :
    modes = modes' ∧ params = params' := by
  have hzip : modes.zip params = modes'.zip params' := by
    apply List.map_injective_iff.mpr operandText_injective
    simpa [← List.map_uncurry_zip_eq_zipWith, Function.uncurry_def] using h
  have hpairs := congrArg List.unzip hzip
  rw [List.unzip_zip hlength, List.unzip_zip hlength'] at hpairs
  exact Prod.mk.inj hpairs

/-- There is a mode and a value for each parameter. -/
def Complete : Statement → Prop
  | .instruction i params => i.modes.length = i.opcode.arity ∧ params.length = i.opcode.arity
  | .data _ => True

def keyword : Statement → String
  | .instruction i _ => i.opcode.mnemonic
  | .data _ => "DATA"

def operands : Statement → List String
  | .instruction i params => List.zipWith operandText i.modes params
  | .data word => [operandText .immediate word]

def tail (s : Statement) : List Char :=
  if s.operands = [] then [] else ' ' :: [',', ' '].intercalate (s.operands.map String.toList)

theorem toList_text (s : Statement) : s.text.toList = s.keyword.toList ++ s.tail := by
  cases s with
  | data word => simp [text, keyword, tail, operands, operandText, toString]
  | instruction i params =>
    simp only [text, keyword, tail, operands]
    split <;> simp_all [toString]

theorem toList_text_instruction {i : Instruction} {params : List Cell} (h : i.modes.length = params.length) :
    (text (.instruction i params)).toList = i.opcode.mnemonic.toList ++
      if params = [] then [] else ' ' :: [',', ' '].intercalate (List.zipWith operandChars i.modes params) := by
  have hnone : List.zipWith operandText i.modes params = [] ↔ params = [] := by
    rw [List.zipWith_eq_nil_iff]
    refine or_iff_right_of_imp ?_
    intro hmodes
    exact List.eq_nil_of_length_eq_zero (by rw [← h, hmodes, List.length_nil])
  simp only [toList_text, keyword, tail, operands, hnone, List.map_zipWith, toList_operandText]

theorem isUpper_of_mem_keyword {s : Statement} {c : Char} (h : c ∈ s.keyword.toList) : c.isUpper = true := by
  have hall : s.keyword.toList.all Char.isUpper = true := by
    cases s with
    | data word => simp [keyword]
    | instruction i params =>
      simp only [keyword]
      cases i.opcode <;> decide
  exact List.all_eq_true.mp hall c h

theorem not_mem_operands {c : Char} (hdigit : c.isDigit = false) (hsign : c ≠ '-')
    (hmark : c ∉ ['[', ']', 'r', 'b', '+']) {s : Statement} {operand : String} (h : operand ∈ s.operands) :
    c ∉ operand.toList := by
  cases s with
  | data word =>
    rw [List.mem_singleton.mp h]
    exact not_mem_operandText hdigit hsign hmark .immediate word
  | instruction i params =>
    rw [operands, ← List.map_uncurry_zip_eq_zipWith] at h
    obtain ⟨⟨mode, raw⟩, _, rfl⟩ := List.mem_map.mp h
    exact not_mem_operandText hdigit hsign hmark mode raw

theorem keyword_and_tail_of_text {s t : Statement} (h : s.text = t.text) :
    s.keyword = t.keyword ∧ s.tail = t.tail := by
  have hlist := congrArg String.toList h
  rw [toList_text, toList_text] at hlist
  have hfront : ∀ s : Statement, ' ' ∉ s.keyword.toList := by
    intro s h
    exact absurd (isUpper_of_mem_keyword h) (by decide)
  have hspace : ∀ s : Statement, ∀ d ∈ s.tail.head?, d = ' ' := by
    intro s
    rw [tail]
    split <;> simp
  obtain ⟨hkeyword, htail⟩ := append_inj_of_front (hfront s) (hfront t) (hspace s) (hspace t) hlist
  exact ⟨String.toList_inj.mp hkeyword, htail⟩

theorem operands_of_tail {s t : Statement} (hlength : s.operands.length = t.operands.length)
    (h : s.tail = t.tail) : s.operands = t.operands := by
  have hcomma : ∀ s : Statement, ∀ o ∈ s.operands.map String.toList, ',' ∉ o := by
    intro s o ho
    obtain ⟨operand, hoperand, rfl⟩ := List.mem_map.mp ho
    exact not_mem_operands rfl (by decide) (by decide) hoperand
  unfold tail at h
  by_cases hs : s.operands = []
  · have ht : t.operands = [] := List.eq_nil_of_length_eq_zero (by rw [← hlength, hs, List.length_nil])
    rw [hs, ht]
  · have ht : t.operands ≠ [] := by
      intro ht
      exact hs (List.eq_nil_of_length_eq_zero (by rw [hlength, ht, List.length_nil]))
    rw [if_neg hs, if_neg ht] at h
    have hlists := intercalate_inj (by simpa using hlength) (hcomma s) (hcomma t) (List.cons.inj h).2
    exact (List.map_injective_iff.mpr fun _ _ => String.toList_inj.mp) hlists

end Statement

theorem Opcode.mnemonic_injective : Function.Injective Opcode.mnemonic := by
  have hfind : ∀ op : Opcode, Opcode.all.find? (·.mnemonic = op.mnemonic) = some op := by
    intro op
    cases op <;> decide
  intro op op' h
  have hsame := hfind op
  rw [h, hfind op'] at hsame
  exact (Option.some.inj hsame).symm

theorem Opcode.mnemonic_ne_data (op : Opcode) : op.mnemonic ≠ "DATA" := by cases op <;> decide

namespace Statement

theorem text_inj {s t : Statement} (hs : s.Complete) (ht : t.Complete) : s.text = t.text ↔ s = t := by
  refine ⟨?_, congrArg text⟩
  intro h
  obtain ⟨hkeyword, htail⟩ := keyword_and_tail_of_text h
  cases s with
  | data word =>
    cases t with
    | data word' =>
      have hlength : (data word).operands.length = (data word').operands.length := by
        simp only [operands, List.length_singleton]
      have hoperands := operands_of_tail hlength htail
      rw [operands, operands, List.cons.injEq] at hoperands
      rw [raw_of_operandText hoperands.1]
    | instruction j params' =>
      rw [keyword, keyword] at hkeyword
      exact absurd hkeyword.symm j.opcode.mnemonic_ne_data
  | instruction i params =>
    cases t with
    | data word' =>
      rw [keyword, keyword] at hkeyword
      exact absurd hkeyword i.opcode.mnemonic_ne_data
    | instruction j params' =>
      rw [keyword, keyword] at hkeyword
      have hopcode := Opcode.mnemonic_injective hkeyword
      obtain ⟨hmodes, hparams⟩ := hs
      obtain ⟨hmodes', hparams'⟩ := ht
      have hoperands := operands_of_tail
        (by simp [operands, hmodes, hparams, hmodes', hparams', hopcode]) htail
      obtain ⟨hsame, rfl⟩ := zipWith_operandText_inj (hmodes.trans hparams.symm)
        (hmodes'.trans hparams'.symm) hoperands
      have hinstruction : i = j := by
        cases i
        cases j
        simp_all
      rw [hinstruction]

end Statement

namespace Listing

variable {p q : Array Cell} {a b : Nat}

theorem complete_lineAt (cells : Array Cell) (a : Nat) : (lineAt cells a).statement.Complete := by
  by_cases h : ∃ i, Whole cells a i
  · obtain ⟨i, hdecode, hfits⟩ := h
    rw [lineAt_of_whole ⟨hdecode, hfits⟩]
    refine ⟨(decode_eq_ok_iff.mp hdecode).2.1, ?_⟩
    simp only [Instruction.width, Opcode.width] at hfits ⊢
    simp only [Array.length_toList, Array.size_extract]
    omega
  · rw [lineAt_of_not_whole (not_exists.mp h)]
    trivial

theorem text_lineAt_inj : (lineAt p a).text = (lineAt q b).text ↔
    (lineAt p a).statement = (lineAt q b).statement :=
  Statement.text_inj (complete_lineAt p a) (complete_lineAt q b)

theorem whole_of_statement {i : Instruction} {params : List Cell}
    (h : (lineAt p a).statement = .instruction i params) :
    Whole p a i ∧ slice? p (a + 1) (a + i.width) = some params.toArray := by
  by_cases hw : ∃ j, Whole p a j
  · obtain ⟨j, hj⟩ := hw
    have hin : a < p.size := by
      have hwidth : 0 < j.width := Nat.succ_pos _
      have hfits := hj.2
      omega
    have hparams := (describes_lineAt hin).params i params h
    rw [address_lineAt] at hparams
    rw [lineAt_of_whole hj] at h
    obtain ⟨rfl, _⟩ := Statement.instruction.inj h
    exact ⟨hj, hparams⟩
  · rw [lineAt_of_not_whole (not_exists.mp hw)] at h
    cases h

theorem word_of_statement {word : Cell} (h : (lineAt p a).statement = .data word) : p.getD a 0 = word := by
  by_cases hw : ∃ i, Whole p a i
  · obtain ⟨i, hi⟩ := hw
    rw [lineAt_of_whole hi] at h
    cases h
  · rw [lineAt_of_not_whole (not_exists.mp hw)] at h
    exact Statement.data.inj h

/-- Two lines with one text, of whatever programs and at whatever addresses, are the same but for the digits
of their words that are not looked at. -/
theorem text_determines_line (h : (lineAt p a).text = (lineAt q b).text) :
    (lineAt p a).width = (lineAt q b).width ∧
    ((∃ word, (lineAt p a).statement = .data word ∧ (lineAt q b).statement = .data word ∧
        p.getD a 0 = word ∧ q.getD b 0 = word) ∨
      ∃ i params, (lineAt p a).statement = .instruction i params ∧
        (lineAt q b).statement = .instruction i params ∧
        Whole p a i ∧ slice? p (a + 1) (a + i.width) = some params.toArray ∧
        Whole q b i ∧ slice? q (b + 1) (b + i.width) = some params.toArray ∧
        (p.getD a 0).toInt % 10 ^ (i.opcode.arity + 2) = (q.getD b 0).toInt % 10 ^ (i.opcode.arity + 2)) := by
  have hsame := text_lineAt_inj.mp h
  refine ⟨congrArg Statement.width hsame, ?_⟩
  cases hp : (lineAt p a).statement with
  | data word =>
    have hq := hsame.symm.trans hp
    exact .inl ⟨word, rfl, hq, word_of_statement hp, word_of_statement hq⟩
  | instruction i params =>
    have hq := hsame.symm.trans hp
    obtain ⟨hwhole, hparams⟩ := whole_of_statement hp
    obtain ⟨hwhole', hparams'⟩ := whole_of_statement hq
    refine .inr ⟨i, params, rfl, hq, hwhole, hparams, hwhole', hparams', ?_⟩
    rw [← encode_of_decode hwhole.1, ← encode_of_decode hwhole'.1]

/-- The same output twice, once with a digit in front of its word that is not looked at. -/
theorem text_determines_line_junk :
    let p : Array Cell := #[204, -1, 99]
    let q : Array Cell := #[0, 700204, -1]
    (lineAt p 0).text = "OUT [rb-1]" ∧ (lineAt p 0).text = (lineAt q 1).text ∧
      (lineAt p 0).width = (lineAt q 1).width ∧
      ∃ i params, (lineAt p 0).statement = .instruction i params ∧
        (lineAt q 1).statement = .instruction i params ∧
        (204 : Cell).toInt % 10 ^ (i.opcode.arity + 2) =
          (700204 : Cell).toInt % 10 ^ (i.opcode.arity + 2) := by
  intro p q
  have htext : (lineAt p 0).text = "OUT [rb-1]" := by decide +kernel
  have hsame : (lineAt p 0).text = (lineAt q 1).text := by decide +kernel
  obtain ⟨hwidth, ⟨word, hdata, _⟩ | ⟨i, params, hp, hq, _, _, _, _, hwords⟩⟩ := text_determines_line hsame
  · have hinstruction : (lineAt p 0).statement = .instruction ⟨.output, [.relative]⟩ [-1] := by
      decide +kernel
    rw [hinstruction] at hdata
    cases hdata
  · exact ⟨htext, hsame, hwidth, i, params, hp, hq, hwords⟩

end Listing

end Intcode
