import Intcode.Text.Decimal
set_option autoImplicit false

/-!
Numbers in text, said without the reader: a sign or none, and digits, at least one. What is no such
number, or is out of range, goes wrong somewhere, and the reader's fault is the one at the first place
where it does.
-/
namespace Intcode.Text.Decimal

def signed (negative : Bool) (ds : List Char) : Int :=
  if negative then -(Nat.ofDigitChars 10 ds 0 : Int) else Nat.ofDigitChars 10 ds 0

inductive Begins : List Char → Bool → List Char → Prop
  | bare {ds : List Char} : ds.head? ≠ some '+' → ds.head? ≠ some '-' → Begins ds false ds
  | plus (ds : List Char) : Begins ('+' :: ds) false ds
  | minus (ds : List Char) : Begins ('-' :: ds) true ds

def Literal (token : List Char) (n : Int) : Prop :=
  ∃ negative ds, Begins token negative ds ∧ ds ≠ [] ∧ (∀ c ∈ ds, c.isDigit = true) ∧ n = signed negative ds

def Range.Holds (range : Range) (n : Int) : Prop := range.lo ≤ n ∧ n ≤ range.hi

instance (range : Range) (n : Int) : Decidable (range.Holds n) := inferInstanceAs (Decidable (_ ∧ _))

/-- There are digits only, and the value so far is in the range. -/
def Sound (range : Range) (negative : Bool) (ds : List Char) : Prop :=
  (∀ c ∈ ds, c.isDigit = true) ∧ range.Holds (signed negative ds)

def overflow (negative : Bool) : Fault := if negative then .tooSmall else .tooLarge

/-- This is the fault at the leftmost place where the characters go wrong. One that is no digit is blamed
for that, whatever the value. -/
def Stumbles (range : Range) (negative : Bool) (ds : List Char) (fault : Fault) : Prop :=
  ∃ front c rest, ds = front ++ c :: rest ∧ (∀ p, p <+: front → Sound range negative p) ∧
    ¬ Sound range negative (front ++ [c]) ∧
    fault = if c.isDigit then overflow negative else .invalidDigit

/-- What is wrong with a token that is no number of the range. -/
inductive Blames (range : Range) : List Char → Fault → Prop
  | empty : Blames range [] .empty
  | lone {c : Char} {negative : Bool} : Begins [c] negative [] → Blames range [c] .invalidDigit
  | stumble {token ds : List Char} {negative : Bool} {fault : Fault} :
      Begins token negative ds → Stumbles range negative ds fault → Blames range token fault

theorem exists_begins (token : List Char) : ∃ negative ds, Begins token negative ds := by
  cases token with
  | nil => exact ⟨false, [], .bare (by simp) (by simp)⟩
  | cons c ds =>
    by_cases hplus : c = '+'
    · exact ⟨false, ds, hplus ▸ .plus ds⟩
    by_cases hminus : c = '-'
    · exact ⟨true, ds, hminus ▸ .minus ds⟩
    exact ⟨false, c :: ds, .bare (by simpa using hplus) (by simpa using hminus)⟩

theorem Begins.unique {token ds ds' : List Char} {negative negative' : Bool}
    (h : Begins token negative ds) (h' : Begins token negative' ds') :
    negative = negative' ∧ ds = ds' := by
  cases h <;> cases h' <;> simp_all

section Values
variable {range : Range} {negative : Bool} {ds p : List Char}

theorem le_ofDigitChars (n : Nat) (ds : List Char) : n ≤ Nat.ofDigitChars 10 ds n := by
  induction ds generalizing n with
  | nil => simp
  | cons c ds ih =>
    rw [Nat.ofDigitChars_cons]
    have hrest := ih (10 * n + (c.toNat - '0'.toNat))
    omega

theorem signed_snoc (negative : Bool) (ds : List Char) (c : Char) : signed negative (ds ++ [c]) =
    10 * signed negative ds + if negative then -digitValue c else digitValue c := by
  have hvalue : Nat.ofDigitChars 10 (ds ++ [c]) 0 =
      10 * Nat.ofDigitChars 10 ds 0 + (c.toNat - '0'.toNat) := by
    rw [Nat.ofDigitChars_append, Nat.ofDigitChars_cons, Nat.ofDigitChars_nil]
  unfold signed digitValue
  rw [hvalue]
  cases negative with
  | false =>
    simp only [Bool.false_eq_true, if_false]
    omega
  | true =>
    simp only [if_true]
    omega

theorem sound_nil (hlo : range.lo ≤ 0) (hhi : 0 ≤ range.hi) : Sound range negative [] := by
  refine ⟨by simp, ?_⟩
  cases negative with
  | false => exact ⟨hlo, hhi⟩
  | true => exact ⟨hlo, hhi⟩

theorem Sound.of_prefix (hlo : range.lo ≤ 0) (hhi : 0 ≤ range.hi) (h : Sound range negative ds)
    (hp : p <+: ds) : Sound range negative p := by
  obtain ⟨rest, rfl⟩ := hp
  obtain ⟨hdigits, hholds⟩ := h
  refine ⟨fun c hc => hdigits c (List.mem_append_left _ hc), ?_⟩
  have hle := le_ofDigitChars (Nat.ofDigitChars 10 p 0) rest
  unfold Range.Holds signed at hholds ⊢
  rw [Nat.ofDigitChars_append] at hholds
  cases negative with
  | false =>
    simp only [Bool.false_eq_true, if_false] at hholds ⊢
    omega
  | true =>
    simp only [if_true] at hholds ⊢
    omega

theorem Stumbles.ne_nil {fault : Fault} (h : Stumbles range negative ds fault) : ds ≠ [] := by
  obtain ⟨front, c, rest, rfl, _⟩ := h
  simp

theorem Stumbles.not_sound {fault : Fault} (hlo : range.lo ≤ 0) (hhi : 0 ≤ range.hi)
    (h : Stumbles range negative ds fault) : ¬ Sound range negative ds := by
  rintro hsound
  obtain ⟨front, c, rest, rfl, _, hbad, _⟩ := h
  exact hbad (hsound.of_prefix hlo hhi ⟨rest, by simp⟩)

theorem Stumbles.unique {fault fault' : Fault} (h : Stumbles range negative ds fault)
    (h' : Stumbles range negative ds fault') : fault = fault' := by
  obtain ⟨front, c, rest, rfl, hfront, hbad, rfl⟩ := h
  obtain ⟨front', c', rest', heq, hfront', hbad', rfl⟩ := h'
  have hone : front ++ [c] <+: front' ++ c' :: rest' := ⟨rest, by simpa using heq⟩
  -- Neither place is left of the other, for up to the other all is sound.
  obtain hlt | heqlen | hgt := Nat.lt_trichotomy front.length front'.length
  · have hwithin : (front ++ [c]).length ≤ front'.length := by simpa using Nat.succ_le_of_lt hlt
    exact absurd (hfront' _ (List.prefix_of_prefix_length_le hone ⟨_, rfl⟩ hwithin)) hbad
  · obtain ⟨rfl, htail⟩ := List.append_inj heq heqlen
    rw [(List.cons.inj htail).1]
  · have htwo : front' ++ [c'] <+: front ++ c :: rest := ⟨rest', by simpa using heq.symm⟩
    have hwithin : (front' ++ [c']).length ≤ front.length := by simpa using Nat.succ_le_of_lt hgt
    exact absurd (hfront _ (List.prefix_of_prefix_length_le htwo ⟨_, rfl⟩ hwithin)) hbad'

end Values

def walk (range : Range) (negative : Bool) (value : Int) (cs : List Char) : Except Fault Int :=
  if negative then falling range value cs else rising range value cs

section Reading
variable {range : Range} {negative : Bool} {token ds : List Char} {fault : Fault} {n : Int}

theorem walk_nil (value : Int) : walk range negative value [] = .ok value := by
  cases negative <;> rfl

theorem walk_cons (hlo : range.lo ≤ 0) (hhi : 0 ≤ range.hi) (done : List Char) (c : Char)
    (rest : List Char) : walk range negative (signed negative done) (c :: rest) =
      if c.isDigit = false then .error .invalidDigit
      else if range.Holds (signed negative (done ++ [c])) then
        walk range negative (signed negative (done ++ [c])) rest
      else .error (overflow negative) := by
  have hsnoc := signed_snoc negative done c
  unfold walk Range.Holds
  cases negative with
  | false =>
    have hpos : 0 ≤ signed false (done ++ [c]) := Int.natCast_nonneg _
    simp only [Bool.false_eq_true, if_false] at hsnoc ⊢
    simp only [rising, ← hsnoc]
    by_cases hdigit : c.isDigit
    · by_cases hle : signed false (done ++ [c]) ≤ range.hi
      · have hlo' : range.lo ≤ signed false (done ++ [c]) := by omega
        simp [hdigit, hle, hlo', Int.not_lt.mpr hle]
      · simp [hdigit, hle, Int.not_le.mp hle, overflow]
    · simp [hdigit]
  | true =>
    have hneg : signed true (done ++ [c]) ≤ 0 := Int.neg_nonpos_of_nonneg (Int.natCast_nonneg _)
    simp only [if_true] at hsnoc ⊢
    rw [← Int.sub_eq_add_neg] at hsnoc
    simp only [falling, ← hsnoc]
    by_cases hdigit : c.isDigit
    · by_cases hle : range.lo ≤ signed true (done ++ [c])
      · have hhi' : signed true (done ++ [c]) ≤ range.hi := by omega
        simp [hdigit, hle, hhi', Int.not_lt.mpr hle]
      · simp [hdigit, hle, Int.not_le.mp hle, overflow]
    · simp [hdigit]

/-- After some sound digits the reader goes on to the end, or to the first place where it goes wrong. -/
theorem walk_cases (hlo : range.lo ≤ 0) (hhi : 0 ≤ range.hi) (done cs : List Char)
    (hdone : ∀ p, p <+: done → Sound range negative p) :
    (walk range negative (signed negative done) cs = .ok (signed negative (done ++ cs)) ∧
      Sound range negative (done ++ cs)) ∨
    ∃ fault, walk range negative (signed negative done) cs = .error fault ∧
      Stumbles range negative (done ++ cs) fault := by
  induction cs generalizing done with
  | nil => exact .inl ⟨by rw [walk_nil, List.append_nil], hdone _ (by simp)⟩
  | cons c rest ih =>
    have hsound := hdone done (List.prefix_refl done)
    rw [walk_cons hlo hhi]
    by_cases hdigit : c.isDigit = true
    · rw [if_neg (by simp [hdigit])]
      have hdigits : ∀ d ∈ done ++ [c], d.isDigit = true :=
        List.forall_mem_append.mpr ⟨hsound.1, by simpa using hdigit⟩
      by_cases hholds : range.Holds (signed negative (done ++ [c]))
      · rw [if_pos hholds]
        have hnext : Sound range negative (done ++ [c]) := ⟨hdigits, hholds⟩
        have hrest := ih (done ++ [c]) fun p hp => hnext.of_prefix hlo hhi hp
        rwa [List.append_assoc, List.singleton_append] at hrest
      · rw [if_neg hholds]
        refine .inr ⟨_, rfl, done, c, rest, rfl, hdone, ?_, by rw [if_pos hdigit]⟩
        intro hbad
        exact hholds hbad.2
    · rw [if_pos (by simpa using hdigit)]
      refine .inr ⟨_, rfl, done, c, rest, rfl, hdone, ?_, by rw [if_neg hdigit]⟩
      intro hbad
      exact hdigit (hbad.1 c (by simp))

theorem walk_zero (hlo : range.lo ≤ 0) (hhi : 0 ≤ range.hi) (ds : List Char) :
    (∀ n, walk range negative 0 ds = .ok n ↔ Sound range negative ds ∧ n = signed negative ds) ∧
    ∀ fault, walk range negative 0 ds = .error fault ↔ Stumbles range negative ds fault := by
  have hzero : signed negative [] = 0 := by cases negative <;> rfl
  have hnil : ∀ p, p <+: [] → Sound range negative p := by
    intro p hp
    obtain rfl := List.prefix_nil.mp hp
    exact sound_nil hlo hhi
  obtain ⟨hok, hsound⟩ | ⟨fault', herror, hstumbles⟩ := walk_cases hlo hhi [] ds hnil
  · rw [hzero, List.nil_append] at hok
    rw [List.nil_append] at hsound
    have hno : ∀ fault, ¬ Stumbles range negative ds fault := fun _ h => h.not_sound hlo hhi hsound
    simp [hok, hsound, hno, eq_comm]
  · rw [hzero] at herror
    rw [List.nil_append] at hstumbles
    have hsame : ∀ fault, fault' = fault ↔ Stumbles range negative ds fault := by
      intro fault
      constructor
      · rintro rfl
        exact hstumbles
      · exact hstumbles.unique
    simp [herror, hstumbles.not_sound hlo hhi, hsame]

theorem read_of_begins (hsign : range.signed = true) (h : Begins token negative ds) (hne : ds ≠ []) :
    read range token = walk range negative 0 ds := by
  obtain ⟨c, cs, rfl⟩ := List.exists_cons_of_ne_nil hne
  cases h with
  | bare hplus hminus =>
    rw [read]
    · rfl
    all_goals simp_all
  | plus => rfl
  | minus => simp [read, walk, hsign]

theorem read_eq_ok_iff (hsign : range.signed = true) (hlo : range.lo ≤ 0) (hhi : 0 ≤ range.hi) :
    read range token = .ok n ↔ Literal token n ∧ range.Holds n := by
  obtain ⟨negative, ds, hbegins⟩ := exists_begins token
  have hliteral : Literal token n ↔
      ds ≠ [] ∧ (∀ c ∈ ds, c.isDigit = true) ∧ n = signed negative ds := by
    constructor
    · rintro ⟨negative', ds', hbegins', h⟩
      obtain ⟨rfl, rfl⟩ := hbegins.unique hbegins'
      exact h
    · intro h
      exact ⟨negative, ds, hbegins, h⟩
  rw [hliteral]
  by_cases hne : ds = []
  · subst hne
    cases hbegins <;> simp [read]
  · rw [read_of_begins hsign hbegins hne, (walk_zero hlo hhi ds).1 n]
    simp only [Sound, hne, ne_eq, not_false_eq_true, true_and, and_assoc]
    constructor
    · rintro ⟨hdigits, hholds, rfl⟩
      exact ⟨hdigits, rfl, hholds⟩
    · rintro ⟨hdigits, rfl, hholds⟩
      exact ⟨hdigits, hholds, rfl⟩

theorem blames_nil_iff : Blames range [] fault ↔ fault = .empty := by
  constructor
  · intro h
    cases h with
    | empty => rfl
    | stumble hbegins hstumbles =>
      cases hbegins
      exact absurd rfl hstumbles.ne_nil
  · rintro rfl
    exact .empty

theorem blames_iff (hbegins : Begins token negative ds) (hne : token ≠ []) :
    Blames range token fault ↔
      if ds = [] then fault = .invalidDigit else Stumbles range negative ds fault := by
  constructor
  · intro h
    cases h with
    | empty => exact absurd rfl hne
    | lone hlone =>
      obtain ⟨_, rfl⟩ := hbegins.unique hlone
      rfl
    | stumble hbegins' hstumbles =>
      obtain ⟨rfl, rfl⟩ := hbegins.unique hbegins'
      rwa [if_neg hstumbles.ne_nil]
  · intro h
    by_cases hnil : ds = []
    · rw [if_pos hnil] at h
      subst hnil h
      cases hbegins with
      | bare => exact absurd rfl hne
      | plus => exact .lone (.plus [])
      | minus => exact .lone (.minus [])
    · rw [if_neg hnil] at h
      exact .stumble hbegins h

theorem read_eq_error_iff (hsign : range.signed = true) (hlo : range.lo ≤ 0) (hhi : 0 ≤ range.hi) :
    read range token = .error fault ↔ Blames range token fault := by
  obtain ⟨negative, ds, hbegins⟩ := exists_begins token
  by_cases hempty : token = []
  · subst hempty
    rw [blames_nil_iff, read, Except.error.injEq, eq_comm]
  rw [blames_iff hbegins hempty]
  by_cases hne : ds = []
  · subst hne
    cases hbegins with
    | bare => exact absurd rfl hempty
    | plus => simp [read, eq_comm]
    | minus => simp [read, eq_comm]
  · rw [if_neg hne, read_of_begins hsign hbegins hne, (walk_zero hlo hhi ds).2 fault]

end Reading

end Intcode.Text.Decimal
