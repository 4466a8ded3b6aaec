import Intcode.Proofs.Decode
import Mathlib.Data.Nat.Digits.Lemmas
set_option autoImplicit false

/-!
Instruction words and their decimal digits. Division and remainder of words truncate, and on a positive word
they take its digits off, in exact numbers. So decoding reads an opcode off the two low digits and a mode
off each digit after them, as many as there are parameters, and encoding writes these digits. What it writes
is the word without the digits that nothing reads.
-/
namespace Intcode

def Cell.digit (w : Cell) (n : Nat) : Nat := w.toInt.toNat / 10 ^ n % 10

/-- The word is positive and its two low digits are the code of the opcode. -/
def Cell.Names (w : Cell) (op : Opcode) : Prop := 0 < w.toInt ∧ w.toInt % 100 = op.code.toInt

/-- The digit is the one of a mode that parameter `k` may have. -/
def Opcode.Admits (op : Opcode) (k d : Nat) : Prop := (d = 0 ∨ d = 1 ∨ d = 2) ∧ (op.target? = some k → d ≠ 1)

/-- The modes with none past the last parameter, and positional ones for those that are missing. -/
def Opcode.fit (op : Opcode) (modes : List Mode) : List Mode :=
  (modes.take op.arity).rightpad op.arity .position

def Mode.figure (m : Mode) : Nat := m.digit.toInt.toNat

def Opcode.number (op : Opcode) : Nat := op.code.toInt.toNat

theorem Mode.digit_eq (m : Mode) : m.digit = Int64.ofNat m.figure := by cases m <;> rfl

theorem Mode.toInt_digit (m : Mode) : m.digit.toInt = m.figure := by cases m <;> rfl

theorem Mode.figure_lt (m : Mode) : m.figure < 10 := by cases m <;> decide

theorem Opcode.code_eq (op : Opcode) : op.code = Int64.ofNat op.number := by cases op <;> rfl

theorem Opcode.toInt_code (op : Opcode) : op.code.toInt = op.number := by cases op <;> rfl

theorem Opcode.number_pos (op : Opcode) : 0 < op.number := by cases op <;> decide

theorem Opcode.number_lt (op : Opcode) : op.number < 100 := by cases op <;> decide

theorem Opcode.access_eq_write_iff {op : Opcode} {k : Nat} : op.access k = .write ↔ op.target? = some k := by
  simp [access]

theorem Mode.ofDigit?_eq_some_iff {d : Nat} (hd : d < 10) {m : Mode} :
    Mode.ofDigit? (Int64.ofNat d) = some m ↔ m.figure = d := by
  have hm := m.figure_lt
  constructor
  · intro h
    have heq := congrArg Int64.toInt (Mode.digit_of_ofDigit? h)
    rw [m.toInt_digit, Int64.toInt_ofNat_of_lt (by omega)] at heq
    exact Int.ofNat.inj heq
  · rintro rfl
    rw [← m.digit_eq, Mode.ofDigit?_digit]

theorem Mode.exists_figure_iff {d : Nat} : (∃ m : Mode, m.figure = d) ↔ d = 0 ∨ d = 1 ∨ d = 2 := by
  constructor
  · rintro ⟨m, rfl⟩
    cases m <;> decide
  · rintro (rfl | rfl | rfl)
    · exact ⟨.position, rfl⟩
    · exact ⟨.immediate, rfl⟩
    · exact ⟨.relative, rfl⟩

section Digits
variable {w : Cell} {op : Opcode} {k : Nat}

theorem Cell.digit_lt (w : Cell) (n : Nat) : w.digit n < 10 := Nat.mod_lt _ (by decide)

theorem Cell.toInt_tenPow {e : Nat} (h : e < 19) : (Cell.tenPow e).toInt = 10 ^ e := by
  have hlt : Nat.pow 10 e < 2 ^ 63 :=
    Nat.lt_of_le_of_lt (Nat.pow_le_pow_right (by decide) (Nat.le_of_lt_succ h)) (by decide)
  rw [Cell.tenPow, if_pos h, Int64.toInt_ofNat_of_lt hlt]
  exact Nat.cast_pow 10 e

def modeExponent (param : Count) : Nat := (param.toNat + 2) % 4294967296

/-- A power of ten is never -1, so the quotient does not overflow. -/
theorem toInt_modeDigit_div (w : Cell) (param : Count) : (modeDigit w param).toInt =
    (w.toInt.tdiv (Cell.tenPow (modeExponent param)).toInt).tmod 10 := by
  have hexponent : (param.toUInt32 + 2).toNat = modeExponent param := by simp [modeExponent]
  have hne : Cell.tenPow (modeExponent param) ≠ -1 := by
    intro h
    by_cases he : modeExponent param < 19
    · have hexact := Cell.toInt_tenPow he
      have hpos : (0 : Int) < 10 ^ modeExponent param := by positivity
      rw [← hexact, h] at hpos
      exact absurd hpos (by decide)
    · rw [Cell.tenPow, if_neg he] at h
      exact absurd h (by decide)
  rw [modeDigit, hexponent, Int64.toInt_mod, Int64.toInt_div_of_ne_right _ _ hne]
  rfl

theorem toInt_modeDigit (w : Cell) (hk : k < 17) :
    (modeDigit w (UInt64.ofNat k)).toInt = (w.toInt.tdiv (10 ^ (k + 2))).tmod 10 := by
  have hexponent : modeExponent (UInt64.ofNat k) = k + 2 := by
    simp only [modeExponent, UInt64.toNat_ofNat']
    omega
  rw [toInt_modeDigit_div, hexponent, Cell.toInt_tenPow (by omega)]

theorem modeDigit_eq (hw : 0 ≤ w.toInt) (hk : k < 17) :
    modeDigit w (UInt64.ofNat k) = Int64.ofNat (w.digit (k + 2)) := by
  have hlt := w.digit_lt (k + 2)
  obtain ⟨n, hn⟩ := Int.eq_ofNat_of_zero_le hw
  have hexact : (w.toInt.tdiv (10 ^ (k + 2))).tmod 10 = w.digit (k + 2) := by
    rw [Cell.digit, hn, Int.tdiv_eq_ediv_of_nonneg (Int.natCast_nonneg n),
      Int.tmod_eq_emod_of_nonneg (by positivity)]
    push_cast
    rfl
  apply Int64.toInt.inj
  rw [toInt_modeDigit w hk, Int64.toInt_ofNat_of_lt (by omega), hexact]

theorem ofCode?_eq_some_iff : Opcode.ofCode? (w % 100) = some op ↔ w.Names op := by
  have hcode : Opcode.ofCode? (w % 100) = some op ↔ w % 100 = op.code := by
    constructor
    · intro h
      exact (Opcode.code_of_ofCode? h).symm
    · intro h
      rw [h, Opcode.ofCode?_code]
  have hpos := op.number_pos
  have hmod : (w % 100).toInt = w.toInt.tmod 100 := Int64.toInt_mod w 100
  rw [hcode, ← Int64.toInt_inj, hmod, Cell.Names, op.toInt_code]
  by_cases hw : 0 < w.toInt
  · rw [Int.tmod_eq_emod_of_nonneg hw.le]
    exact (and_iff_right hw).symm
  · have hle : 0 ≤ (-w.toInt).tmod 100 := Int.tmod_nonneg 100 (by omega)
    rw [Int.neg_tmod] at hle
    constructor
    · intro h
      omega
    · intro h
      exact absurd h.1 hw

theorem ofCode?_eq_none_iff : Opcode.ofCode? (w % 100) = none ↔ ∀ op, ¬ w.Names op := by
  simp only [← ofCode?_eq_some_iff, Option.eq_none_iff_forall_ne_some, ne_eq]

theorem Cell.Names.unique {op' : Opcode} (h : w.Names op) (h' : w.Names op') : op = op' :=
  Option.some.inj ((ofCode?_eq_some_iff.mpr h).symm.trans (ofCode?_eq_some_iff.mpr h'))

/-- The digit of a parameter is the one of a mode, or it is what the error tells. -/
theorem paramMode_cases (hw : 0 ≤ w.toInt) (hk : k < 17) :
    (op.Admits k (w.digit (k + 2)) ∧ ∃ m, paramMode op w k = .ok m ∧ m.figure = w.digit (k + 2)) ∨
    (¬ op.Admits k (w.digit (k + 2)) ∧ paramMode op w k =
      .error (.illegalAddressingMode k (Int64.ofNat (w.digit (k + 2))) (op.access k))) := by
  have hmode := fun m => Mode.ofDigit?_eq_some_iff (w.digit_lt (k + 2)) (m := m)
  simp only [paramMode, modeDigit_eq hw hk, Opcode.Admits, ← Mode.exists_figure_iff]
  cases h : Mode.ofDigit? (Int64.ofNat (w.digit (k + 2))) with
  | none =>
    refine .inr ⟨?_, rfl⟩
    rintro ⟨⟨m, hm⟩, _⟩
    rw [(hmode m).mpr hm] at h
    cases h
  | some m =>
    have hm := (hmode m).mp h
    have himmediate : m = .immediate ↔ w.digit (k + 2) = 1 := by
      rw [← hm]
      cases m <;> decide
    simp only [Opcode.access_eq_write_iff, himmediate]
    by_cases hbad : w.digit (k + 2) = 1 ∧ op.target? = some k
    · rw [if_pos hbad]
      exact .inr ⟨fun h => h.2 hbad.2 hbad.1, rfl⟩
    · rw [if_neg hbad]
      exact .inl ⟨⟨⟨m, hm⟩, fun ht h1 => hbad ⟨h1, ht⟩⟩, m, rfl, hm⟩

end Digits

section Decoding
variable {w : Cell} {op : Opcode} {k : Nat} {i : Instruction} {e : DecodeError}

theorem Cell.Names.paramMode_cases (h : w.Names op) (hk : k < op.arity) :
    (op.Admits k (w.digit (k + 2)) ∧ ∃ m, paramMode op w k = .ok m ∧ m.figure = w.digit (k + 2)) ∨
    (¬ op.Admits k (w.digit (k + 2)) ∧ paramMode op w k =
      .error (.illegalAddressingMode k (Int64.ofNat (w.digit (k + 2))) (op.access k))) := by
  have harity := op.arity_le
  exact Intcode.paramMode_cases h.1.le (by omega)

theorem decode_eq_ok_iff_digits : decode w = .ok i ↔ w.Names i.opcode ∧ i.modes.length = i.opcode.arity ∧
    ∀ k < i.opcode.arity, i.opcode.Admits k (w.digit (k + 2)) ∧ (i.modeAt k).figure = w.digit (k + 2) := by
  rw [decode_eq_ok_iff, ofCode?_eq_some_iff]
  refine and_congr_right fun hnames => and_congr_right fun _ => ?_
  refine forall₂_congr fun k hk => ?_
  obtain ⟨hadmits, m, hm, hfigure⟩ | ⟨hbad, herror⟩ := hnames.paramMode_cases hk
  · have hinj : ∀ m', m = m' ↔ m'.figure = w.digit (k + 2) := by
      intro m'
      rw [← hfigure]
      cases m <;> cases m' <;> decide
    rw [hm, Except.ok.injEq, hinj]
    exact (and_iff_right hadmits).symm
  · rw [herror]
    simp [hbad]

theorem exists_decode_eq_ok_iff : (∃ i, decode w = .ok i) ↔
    ∃ op, w.Names op ∧ ∀ k < op.arity, op.Admits k (w.digit (k + 2)) := by
  constructor
  · rintro ⟨i, hi⟩
    obtain ⟨hnames, _, hmodes⟩ := decode_eq_ok_iff_digits.mp hi
    exact ⟨i.opcode, hnames, fun k hk => (hmodes k hk).1⟩
  · rintro ⟨op, hnames, hadmits⟩
    cases hd : decode w with
    | ok i => exact ⟨i, rfl⟩
    | error e =>
      obtain ⟨hnone, _⟩ | ⟨op', hop, k, hk, herror, _⟩ := decode_eq_error_iff.mp hd
      · exact absurd hnames (ofCode?_eq_none_iff.mp hnone op)
      · obtain rfl := hnames.unique (ofCode?_eq_some_iff.mp hop)
        obtain ⟨_, m, hm, _⟩ | ⟨hbad, _⟩ := hnames.paramMode_cases hk
        · simp [hm] at herror
        · exact absurd (hadmits k hk) hbad

theorem decode_eq_error_iff_digits : decode w = .error e ↔
    ((∀ op, ¬ w.Names op) ∧ e = .invalidOpcode w) ∨
    ∃ op, w.Names op ∧ ∃ k < op.arity, ¬ op.Admits k (w.digit (k + 2)) ∧
      (∀ j < k, op.Admits j (w.digit (j + 2))) ∧
      e = .illegalAddressingMode k (Int64.ofNat (w.digit (k + 2))) (op.access k) := by
  simp only [decode_eq_error_iff, ofCode?_eq_none_iff, ofCode?_eq_some_iff]
  refine or_congr_right (exists_congr fun op => and_congr_right fun hnames => ?_)
  refine exists_congr fun k => and_congr_right fun hk => ?_
  have hok : ∀ j < op.arity, (∃ m, paramMode op w j = .ok m) ↔ op.Admits j (w.digit (j + 2)) := by
    intro j hj
    obtain ⟨hadmits, m, hm, _⟩ | ⟨hbad, herror⟩ := hnames.paramMode_cases hj
    · simp [hm, hadmits]
    · simp [herror, hbad]
  have hbefore : (∀ j < k, ∃ m, paramMode op w j = .ok m) ↔ ∀ j < k, op.Admits j (w.digit (j + 2)) :=
    forall₂_congr fun j hj => hok j (by omega)
  rw [hbefore]
  obtain ⟨hadmits, m, hm, _⟩ | ⟨hbad, herror⟩ := hnames.paramMode_cases hk
  · simp [hm, hadmits]
  · simp only [herror, hbad, Except.error.injEq, not_false_eq_true, true_and]
    rw [and_comm, eq_comm]

end Decoding

section Encoding
variable {w : Cell} {op : Opcode} {modes : List Mode} {k : Nat} {i : Instruction}

theorem ofDigits_div_pow_mod {ds : List Nat} (h : ∀ d ∈ ds, d < 10) (k : Nat) :
    Nat.ofDigits 10 ds / 10 ^ k % 10 = ds.getD k 0 := by
  rw [Nat.ofDigits_div_pow_eq_ofDigits_drop k (by decide) ds h, List.getD_eq_getElem?_getD,
    ← List.head?_drop]
  cases hdrop : ds.drop k with
  | nil => rfl
  | cons d rest =>
    have hd : d < 10 := h d (List.mem_of_mem_drop (by rw [hdrop]; exact List.mem_cons_self))
    rw [Nat.ofDigits_cons, List.head?_cons, Option.getD_some]
    omega

theorem ofDigits_range (x n : Nat) :
    Nat.ofDigits 10 ((List.range n).map fun k => x / 10 ^ k % 10) = x % 10 ^ n := by
  induction n with
  | zero => simp [Nat.mod_one]
  | succ n ih =>
    rw [List.range_succ, List.map_append, Nat.ofDigits_append, ih, List.map_singleton,
      Nat.ofDigits_singleton, List.length_map, List.length_range, Nat.mod_pow_succ]

theorem Mode.forall_figures_lt (modes : List Mode) : ∀ d ∈ modes.map Mode.figure, d < 10 := by
  intro d hd
  obtain ⟨m, _, rfl⟩ := List.mem_map.mp hd
  exact m.figure_lt

theorem encodeModes_eq (h : k + modes.length < 17) :
    encodeModes k modes = Int64.ofNat (10 ^ (k + 2) * Nat.ofDigits 10 (modes.map Mode.figure)) := by
  induction modes generalizing k with
  | nil => rfl
  | cons m modes ih =>
    rw [List.length_cons] at h
    have htenPow : Cell.tenPow (k + 2) = Int64.ofNat (10 ^ (k + 2)) := if_pos (by omega)
    have hvalue : 10 ^ (k + 2) * Nat.ofDigits 10 ((m :: modes).map Mode.figure) =
        m.figure * 10 ^ (k + 2) + 10 ^ (k + 1 + 2) * Nat.ofDigits 10 (modes.map Mode.figure) := by
      rw [List.map_cons, Nat.ofDigits_cons]
      ring
    rw [encodeModes, ih (by omega), m.digit_eq, htenPow, hvalue, Int64.ofNat_add,
      Int64.ofNat_mul m.figure]

theorem toInt_encode (op : Opcode) (modes : List Mode) : (encode op modes).toInt =
    (op.number + 100 * Nat.ofDigits 10 ((modes.take op.arity).map Mode.figure) : Nat) := by
  have hlength : (modes.take op.arity).length ≤ 3 := (List.length_take_le ..).trans op.arity_le
  have hnumber := op.number_lt
  have hfigures := Nat.ofDigits_lt_base_pow_length (by decide)
    (Mode.forall_figures_lt (modes.take op.arity))
  have hbound : 10 ^ ((modes.take op.arity).map Mode.figure).length ≤ 10 ^ 3 :=
    Nat.pow_le_pow_right (by decide) (by rwa [List.length_map])
  rw [encode, encodeModes_eq (by omega), op.code_eq, ← Int64.ofNat_add]
  exact Int64.toInt_ofNat_of_lt (by omega)

theorem names_encode (op : Opcode) (modes : List Mode) : (encode op modes).Names op := by
  have hpos := op.number_pos
  have hlt := op.number_lt
  rw [Cell.Names, toInt_encode, op.toInt_code]
  omega

theorem digit_encode (hk : k < op.arity) :
    (encode op modes).digit (k + 2) = (modes.getD k .position).figure := by
  have hlt := op.number_lt
  have hgetD : ((modes.take op.arity).map Mode.figure).getD k Mode.position.figure =
      (modes.getD k .position).figure := by
    rw [List.getD_eq_getElem?_getD, List.getElem?_map, List.getElem?_take_of_lt hk,
      List.getD_eq_getElem?_getD]
    cases modes[k]? <;> rfl
  have hupper : (op.number + 100 * Nat.ofDigits 10 ((modes.take op.arity).map Mode.figure)) / 100 =
      Nat.ofDigits 10 ((modes.take op.arity).map Mode.figure) := by omega
  rw [Cell.digit, toInt_encode, Int.toNat_natCast, Nat.add_comm k 2, Nat.pow_add,
    ← Nat.div_div_eq_div_mul, hupper, ofDigits_div_pow_mod (Mode.forall_figures_lt _)]
  exact hgetD

theorem getD_fit (hk : k < op.arity) : (op.fit modes).getD k .position = modes.getD k .position := by
  simp only [Opcode.fit, List.rightpad, List.getD_eq_getElem?_getD]
  by_cases hin : k < modes.length
  · rw [List.getElem?_append_left (by simp [hk, hin]), List.getElem?_take_of_lt hk]
  · have hmissing : k - (modes.take op.arity).length < op.arity - (modes.take op.arity).length := by
      rw [List.length_take]
      omega
    rw [List.getElem?_append_right (by simp; omega), List.getElem?_eq_none (Nat.not_lt.mp hin),
      List.getElem?_replicate_of_lt hmissing]
    rfl

theorem length_fit (op : Opcode) (modes : List Mode) : (op.fit modes).length = op.arity := by
  simp [Opcode.fit]

theorem fit_of_length (h : modes.length = op.arity) : op.fit modes = modes := by
  simp [Opcode.fit, h]

theorem decode_encode (h : ∀ k, op.target? = some k → modes[k]? ≠ some .immediate) :
    decode (encode op modes) = .ok ⟨op, op.fit modes⟩ := by
  refine decode_eq_ok_iff_digits.mpr ⟨names_encode op modes, length_fit op modes, ?_⟩
  intro k hk
  have hfigure : (Instruction.modeAt ⟨op, op.fit modes⟩ k).figure = (modes.getD k .position).figure :=
    congrArg Mode.figure (getD_fit hk)
  simp only [digit_encode hk]
  refine ⟨⟨Mode.exists_figure_iff.mp ⟨_, rfl⟩, ?_⟩, hfigure⟩
  intro ht hone
  rw [List.getD_eq_getElem?_getD] at hone
  apply h k ht
  cases hm : modes[k]? with
  | none => simp [hm, Mode.figure, Mode.digit] at hone
  | some m =>
    rw [hm, Option.getD_some] at hone
    cases m with
    | immediate => rfl
    | position | relative => cases hone

theorem decode_encode_immediate (ht : op.target? = some k) (hm : modes[k]? = some .immediate) :
    decode (encode op modes) = .error (.illegalAddressingMode k 1 .write) := by
  have hk := Opcode.target?_lt ht
  have hdigit : (encode op modes).digit (k + 2) = 1 := by
    rw [digit_encode hk, List.getD_eq_getElem?_getD, hm]
    rfl
  refine decode_eq_error_iff_digits.mpr (.inr ⟨op, names_encode op modes, k, hk, ?_, ?_, ?_⟩)
  · rw [hdigit]
    exact fun hadmits => hadmits.2 ht rfl
  · intro j hj
    have hother : op.target? ≠ some j := by
      rw [ht]
      exact fun heq => absurd (Option.some.inj heq) (by omega)
    rw [digit_encode (by omega)]
    exact ⟨Mode.exists_figure_iff.mp ⟨_, rfl⟩, fun htarget => absurd htarget hother⟩
  · rw [hdigit, Opcode.access_eq_write_iff.mpr ht]
    rfl

theorem encode_of_decode (h : decode w = .ok i) :
    (encode i.opcode i.modes).toInt = w.toInt % 10 ^ (i.opcode.arity + 2) := by
  obtain ⟨⟨hpos, hcode⟩, hlength, hmodes⟩ := decode_eq_ok_iff_digits.mp h
  obtain ⟨n, hn⟩ := Int.eq_ofNat_of_zero_le hpos.le
  have hfigures : i.modes.map Mode.figure =
      (List.range i.opcode.arity).map fun k => n / 100 / 10 ^ k % 10 := by
    apply List.ext_getElem (by simp [hlength])
    intro k hk _
    rw [List.length_map] at hk
    have hfigure := (hmodes k (hlength ▸ hk)).2
    rw [Cell.digit, hn, Int.toNat_natCast, Nat.add_comm k 2, Nat.pow_add, ← Nat.div_div_eq_div_mul] at hfigure
    simpa [Instruction.modeAt, hk] using hfigure
  have hnumber : i.opcode.number = n % 100 := by
    rw [hn, i.opcode.toInt_code] at hcode
    omega
  have hvalue : i.opcode.number + 100 * (n / 100 % 10 ^ i.opcode.arity) = n % 10 ^ (i.opcode.arity + 2) := by
    rw [hnumber, Nat.add_comm i.opcode.arity 2, Nat.pow_add, Nat.mod_mul]
  rw [toInt_encode, List.take_of_length_le hlength.le, hfigures, ofDigits_range, hvalue, hn]
  push_cast
  rfl

/-- A word is decoded exactly if it is positive, its two low digits are a code, and the digit of each
parameter is one that it may have. The instruction has the modes of these digits, and what is encoded for it
is the word without the digits past them. The error is about the opcode, or else about the least parameter
with a digit that it may not have. And what is encoded for any opcode and modes is decoded as these, cut and
filled up to the arity, unless the target is to be immediate. -/
theorem decode_encode_agree :
    (∀ w : Cell,
      ((∃ i, decode w = .ok i) ↔ ∃ op, w.Names op ∧ ∀ k < op.arity, op.Admits k (w.digit (k + 2))) ∧
      (∀ i, decode w = .ok i → w.Names i.opcode ∧ i.modes.length = i.opcode.arity ∧
        (∀ k < i.opcode.arity, (i.modeAt k).digit.toInt = w.digit (k + 2)) ∧
        (∀ k, i.opcode.arity ≤ k → i.modeAt k = .position) ∧
        (encode i.opcode i.modes).toInt = w.toInt % 10 ^ (i.opcode.arity + 2) ∧
        decode (encode i.opcode i.modes) = .ok i) ∧
      (∀ e, decode w = .error e ↔
        ((∀ op, ¬ w.Names op) ∧ e = .invalidOpcode w) ∨
        ∃ op, w.Names op ∧ ∃ k < op.arity, ¬ op.Admits k (w.digit (k + 2)) ∧
          (∀ j < k, op.Admits j (w.digit (j + 2))) ∧
          e = .illegalAddressingMode k (Int64.ofNat (w.digit (k + 2))) (op.access k)) ∧
      (w.toInt ≤ 0 → decode w = .error (.invalidOpcode w))) ∧
    ∀ op modes,
      ((∀ k, op.target? = some k → modes[k]? ≠ some .immediate) →
        decode (encode op modes) = .ok ⟨op, op.fit modes⟩) ∧
      ∀ k, op.target? = some k → modes[k]? = some .immediate →
        decode (encode op modes) = .error (.illegalAddressingMode k 1 .write) := by
  refine ⟨?_, fun op modes => ⟨decode_encode, fun k => decode_encode_immediate⟩⟩
  intro w
  refine ⟨exists_decode_eq_ok_iff, ?_, fun e => decode_eq_error_iff_digits, ?_⟩
  · intro i hi
    obtain ⟨hnames, hlength, hmodes⟩ := decode_eq_ok_iff_digits.mp hi
    refine ⟨hnames, hlength, ?_, ?_, encode_of_decode hi, ?_⟩
    · intro k hk
      rw [Mode.toInt_digit, (hmodes k hk).2]
    · intro k hk
      rw [Instruction.modeAt, List.getD_eq_getElem?_getD, List.getElem?_eq_none (by omega)]
      rfl
    · have htarget : ∀ k, i.opcode.target? = some k → i.modes[k]? ≠ some .immediate := by
        intro k ht hm
        have hmode := modeAt_target hi (Opcode.target?_lt ht) (Opcode.access_eq_write_iff.mpr ht)
        exact hmode (by rw [Instruction.modeAt, List.getD_eq_getElem?_getD, hm, Option.getD_some])
      rw [decode_encode htarget, fit_of_length hlength]
  · intro hneg
    exact decode_eq_error_iff_digits.mpr (.inl ⟨fun op h => absurd h.1 (by omega), rfl⟩)

/-- Digits in front of the last mode are not looked at, a mode that is missing is positional, and one too
many is dropped. -/
theorem decode_encode_agree_junk :
    let w : Cell := 9021202
    let i : Instruction := ⟨.multiply, [.relative, .immediate, .relative]⟩
    decode w = .ok i ∧ (encode .multiply i.modes).toInt = w.toInt % 10 ^ 5 ∧
      decode (encode .multiply i.modes) = .ok i ∧
      decode (encode .lessThan [.immediate]) = .ok ⟨.lessThan, [.immediate, .position, .position]⟩ ∧
      decode (encode .output [.relative, .immediate]) = .ok ⟨.output, [.relative]⟩ ∧
      decode (encode .input [.immediate, .relative]) = .error (.illegalAddressingMode 0 1 .write) ∧
      (-1 : Cell).toInt ≤ 0 ∧ decode (-1) = .error (.invalidOpcode (-1)) := by
  intro w i
  obtain ⟨hwords, hcodes⟩ := decode_encode_agree
  have hw : decode w = .ok i := by decide +kernel
  obtain ⟨_, _, _, _, hencoded, hback⟩ := (hwords w).2.1 i hw
  refine ⟨hw, hencoded, hback, ?_, ?_, ?_, by decide, (hwords (-1)).2.2.2 (by decide)⟩
  · exact (hcodes .lessThan [.immediate]).1 (by simp [Opcode.target?])
  · exact (hcodes .output [.relative, .immediate]).1 (by simp [Opcode.target?])
  · exact (hcodes .input [.immediate, .relative]).2 0 rfl rfl

end Encoding

end Intcode
