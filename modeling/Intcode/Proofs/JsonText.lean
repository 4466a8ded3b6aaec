import Intcode.Json.Reader
set_option autoImplicit false

/-!
Reading back what was written. The text of a value is read as that value wherever it stands in front of a
comma, a closing bracket or the end, and with any amount of fuel that is twice the length of the text. Left
out are values that are not made to be written: numbers kept as literals, and strings that are not there.
-/
namespace Intcode.Json

open Text

/-- What may come after a value in a compact text. -/
def Ends : List Char → Prop
  | [] => True
  | c :: _ => c = ',' ∨ c = ']' ∨ c = '\x7d'

theorem skip_cons {c : Char} (h : isBlank c = false) (cs : List Char) : skip (c :: cs) = c :: cs := by
  simp [skip, h]

section Numbers
variable {rest : List Char}

theorem Ends.not_digit (h : Ends rest) {c : Char} (hc : rest.head? = some c) : c.isDigit = false := by
  cases rest with
  | nil => cases hc
  | cons d ds =>
    cases hc
    obtain rfl | rfl | rfl := h <;> rfl

theorem digits_append (h : Ends rest) {ds : List Char} (hds : ∀ c ∈ ds, c.isDigit = true) :
    digits (ds ++ rest) = (ds, rest) := by
  rw [digits, List.takeWhile_append_of_pos hds, List.dropWhile_append_of_pos hds]
  cases rest with
  | nil => simp
  | cons c cs => simp [h.not_digit rfl]

theorem fraction_of_ends (h : Ends rest) : fraction rest = some ([], rest) := by
  cases rest with
  | nil => rfl
  | cons c cs => obtain rfl | rfl | rfl := h <;> rfl

theorem exponent_of_ends (h : Ends rest) : exponent rest = some ([], rest) := by
  cases rest with
  | nil => rfl
  | cons c cs => obtain rfl | rfl | rfl := h <;> rfl

theorem toDigits_all (n : Nat) : ∀ c ∈ Nat.toDigits 10 n, c.isDigit = true := fun _ hc =>
  Nat.isDigit_of_mem_toDigits (by decide) (by decide) hc

theorem exists_toDigits_eq_cons (n : Nat) : ∃ c cs, Nat.toDigits 10 n = c :: cs ∧ c.isDigit = true := by
  obtain ⟨c, cs, h⟩ := List.exists_cons_of_ne_nil (Nat.toDigits_ne_nil (n := n) (b := 10))
  exact ⟨c, cs, h, toDigits_all n c (by simp [h])⟩

theorem toDigits_ne_zero_cons {n : Nat} (h : 0 < n) (cs : List Char) : Nat.toDigits 10 n ≠ '0' :: cs := by
  induction n using Nat.strongRecOn generalizing cs with
  | ind n ih =>
    intro heq
    by_cases hn : n < 10
    · rw [Nat.toDigits_of_lt_base hn] at heq
      have hdigit : ∀ d < 10, 0 < d → Nat.digitChar d ≠ '0' := by decide
      exact hdigit n hn h (List.cons.inj heq).1
    · obtain ⟨c, front, hfront, _⟩ := exists_toDigits_eq_cons (n / 10)
      rw [Nat.toDigits_of_base_le (by decide) (Nat.not_lt.mp hn), hfront] at heq
      obtain rfl : c = '0' := (List.cons.inj heq).1
      exact ih (n / 10) (Nat.div_lt_self h (by decide)) (by omega) front hfront

theorem wholePart_toDigits (h : Ends rest) (n : Nat) :
    wholePart (Nat.toDigits 10 n ++ rest) = some (Nat.toDigits 10 n, rest) := by
  rcases Nat.eq_zero_or_pos n with rfl | hn
  · rfl
  · obtain ⟨c, cs, hcs, hc⟩ := exists_toDigits_eq_cons n
    have hdigits := digits_append h (toDigits_all n)
    rw [hcs, List.cons_append] at hdigits
    rw [hcs, List.cons_append, wholePart]
    · rw [if_pos hc, hdigits]
    · rintro rfl
      exact toDigits_ne_zero_cons hn cs hcs

theorem unsignedNumber_toDigits (h : Ends rest) (negative : Bool) (n : Nat)
    (hn : negative = true → 0 < n) : unsignedNumber negative (Nat.toDigits 10 n ++ rest) =
      some (.int (if negative then -n else n), rest) := by
  have hzero : (!(negative && n == 0)) = true := by
    cases negative with
    | false => rfl
    | true => simp [Nat.ne_of_gt (hn rfl)]
  simp only [unsignedNumber, wholePart_toDigits h, fraction_of_ends h, exponent_of_ends h,
    Nat.ofDigitChars_ten_toDigits, bind, Option.bind, hzero]
  rfl

theorem number_chars (h : Ends rest) (n : Int) :
    number (Decimal.chars n ++ rest) = some (.int n, rest) := by
  cases n with
  | ofNat n =>
    obtain ⟨c, cs, hcs, hc⟩ := exists_toDigits_eq_cons n
    have hnumber := unsignedNumber_toDigits h false n nofun
    have hminus : c ≠ '-' := by
      rintro rfl
      exact absurd hc (by decide)
    simp only [Decimal.chars, hcs, List.cons_append] at hnumber ⊢
    rw [number]
    · exact hnumber
    · intro _ heq
      exact hminus (List.cons.inj heq).1
  | negSucc n =>
    exact unsignedNumber_toDigits h true (n + 1) fun _ => Nat.succ_pos n

end Numbers

theorem hexUnit_hexDigit : ∀ n < 0x20, hexUnit '0' '0' (hexDigit (n / 16)) (hexDigit (n % 16)) = some n := by
  decide

theorem units_escapeChar (c : Char) {cs rest : List Char} {us : List Nat} (h : units cs = some (us, rest)) :
    units (escapeChar c ++ cs) = some (c.toNat :: us, rest) := by
  unfold escapeChar
  split
  · simp [units, escaped, h]
  · simp [units, escaped, h]
  · simp [units, escaped, h]
  · simp [units, escaped, h]
  · simp [units, escaped, h]
  · rename_i hquote hbackslash _ _ _
    split
    · rename_i hcontrol
      simp [units, hexUnit_hexDigit _ hcontrol, h]
    -- A character that stands for itself is taken for no quote and no escape.
    · rename_i hcontrol
      rw [List.singleton_append, units]
      · simp [hcontrol, h]
      · exact hquote
      · intro _ _ _ _ _ hc
        exact absurd hc hbackslash
      · intro _ _ hc
        exact absurd hc hbackslash

theorem units_escape (s rest : List Char) :
    units (s.flatMap escapeChar ++ '"' :: rest) = some (s.map Char.toNat, rest) := by
  induction s with
  | nil => rfl
  | cons c s ih =>
    rw [List.flatMap_cons, List.append_assoc]
    exact units_escapeChar c ih

theorem whole_toNat (c : Char) : isHigh c.toNat = false ∧ isLow c.toNat = false := by
  have hvalid : c.toNat < 0xD800 ∨ 0xDFFF < c.toNat ∧ c.toNat < 0x110000 := c.valid
  simp only [isHigh, isLow, Bool.and_eq_false_iff, decide_eq_false_iff_not]
  omega

theorem joinUnits_toNat (s : List Char) : joinUnits (s.map Char.toNat) = some s := by
  induction s with
  | nil => rfl
  | cons c s ih =>
    obtain ⟨hhigh, hlow⟩ := whole_toNat c
    cases s with
    | nil => simp [joinUnits, hhigh, hlow]
    | cons d s =>
      rw [List.map_cons] at ih
      simp [joinUnits, hhigh, hlow, ih]

theorem readString_escape (s : String) (cs : List Char) :
    readString (s.toList.flatMap escapeChar ++ '"' :: cs) = some (some s, cs) := by
  simp [readString, units_escape, joinUnits_toNat]

/-- A value that is made to be written. -/
inductive Plain : Json → Prop
  | null : Plain .null
  | bool (b : Bool) : Plain (.bool b)
  | int (n : Int) : Plain (.int n)
  | string (s : String) : Plain (.string s)
  | arr {items : List Json} : (∀ j ∈ items, Plain j) → Plain (.arr items)
  | record {members : List (String × Json)} : (∀ m ∈ members, Plain m.2) → Plain (.record members)

/-- Whatever comes after it, the text of the value starts with a character of its own, which is neither a
blank nor the end of a list. -/
def Opens (j : Json) : Prop :=
  ∀ rest, ∃ c cs, j.write rest = c :: cs ∧ rest.length ≤ cs.length ∧ isBlank c = false ∧ c ≠ ']'

/-- The text of the value is read as the value. -/
structure ReadsBack (j : Json) : Prop where
  opens : Opens j
  value : ∀ {rest fuel}, Ends rest → 2 * (j.write rest).length ≤ fuel →
    value fuel (j.write rest) = some (j, rest)

theorem ReadsBack.length_lt {j : Json} (h : ReadsBack j) (rest : List Char) :
    rest.length < (j.write rest).length := by
  obtain ⟨c, cs, hcs, hlength, _⟩ := h.opens rest
  rw [hcs, List.length_cons]
  omega

theorem ReadsBack.of_call {j : Json} (hopens : Opens j)
    (hcall : ∀ {rest fuel}, Ends rest → 2 * (j.write rest).length ≤ fuel + 1 →
      Json.value (fuel + 1) (j.write rest) = some (j, rest)) : ReadsBack j := by
  refine ⟨hopens, ?_⟩
  intro rest fuel hends hfuel
  cases fuel with
  | zero =>
    obtain ⟨c, cs, hcs, _⟩ := hopens rest
    simp [hcs] at hfuel
  | succ fuel => exact hcall hends hfuel

theorem ReadsBack.of_word {j : Json} {c : Char} (cs : List Char)
    (hwrite : ∀ rest, j.write rest = c :: (cs ++ rest)) (hblank : isBlank c = false) (hc : c ≠ ']')
    (hcall : ∀ {rest fuel}, Ends rest → Json.value (fuel + 1) (c :: (cs ++ rest)) = some (j, rest)) :
    ReadsBack j := by
  apply ReadsBack.of_call
  · intro rest
    exact ⟨c, cs ++ rest, hwrite rest, by simp, hblank, hc⟩
  · intro rest fuel hends _
    rw [hwrite]
    exact hcall hends

theorem ReadsBack.null : ReadsBack .null :=
  .of_word ['u', 'l', 'l'] (fun _ => rfl) rfl (by decide) fun _ => rfl

theorem ReadsBack.bool (b : Bool) : ReadsBack (.bool b) := by
  cases b with
  | false => exact .of_word ['a', 'l', 's', 'e'] (fun _ => rfl) rfl (by decide) fun _ => rfl
  | true => exact .of_word ['r', 'u', 'e'] (fun _ => rfl) rfl (by decide) fun _ => rfl

def StartsNumber (c : Char) : Prop := c = '-' ∨ c.isDigit = true

instance (c : Char) : Decidable (StartsNumber c) := inferInstanceAs (Decidable (_ ∨ _))

theorem StartsNumber.not_blank {c : Char} (h : StartsNumber c) : isBlank c = false := by
  cases hc : isBlank c with
  | false => rfl
  | true =>
    simp only [isBlank, Bool.or_eq_true, decide_eq_true_eq] at hc
    obtain ((rfl | rfl) | rfl) | rfl := hc <;> exact absurd h (by decide)

theorem value_number (fuel : Nat) {c : Char} (cs : List Char) (h : StartsNumber c) :
    value (fuel + 1) (c :: cs) = number (c :: cs) := by
  rw [value, skip_cons h.not_blank]
  split
  case h_7 => rfl
  -- The other cases are those of values that start with a character of their own.
  all_goals
    rename_i heq
    cases heq
    exact absurd h (by decide)

theorem exists_chars_eq_cons (n : Int) : ∃ c cs, Decimal.chars n = c :: cs ∧ StartsNumber c := by
  cases n with
  | ofNat n =>
    obtain ⟨c, cs, hcs, hc⟩ := exists_toDigits_eq_cons n
    exact ⟨c, cs, hcs, .inr hc⟩
  | negSucc n => exact ⟨_, _, rfl, .inl rfl⟩

theorem ReadsBack.int (n : Int) : ReadsBack (.int n) := by
  obtain ⟨c, cs, hcs, hc⟩ := exists_chars_eq_cons n
  have hwrite : ∀ rest, Decimal.chars n ++ rest = c :: (cs ++ rest) := by
    intro rest
    rw [hcs, List.cons_append]
  refine .of_word cs hwrite hc.not_blank ?_ ?_
  · rintro rfl
    exact absurd hc (by decide)
  · intro rest fuel hends
    rw [value_number fuel _ hc, ← hwrite, number_chars hends]

theorem ReadsBack.string (s : String) : ReadsBack (.string s) := by
  apply ReadsBack.of_call
  · intro rest
    refine ⟨_, _, rfl, ?_, rfl, by decide⟩
    simp only [List.length_append, List.length_cons]
    omega
  · intro rest fuel _ _
    have hread := readString_escape s rest
    simp only [Json.string, write, writeString, Option.getD_some]
    rw [Json.value, skip_cons rfl]
    simp only [hread]
    rfl

section Items
variable {fuel : Nat} {done : List Json} {v : Json} {cs rest : List Char}

theorem value_items {c : Char} (hblank : isBlank c = false) (hc : c ≠ ']') :
    value (fuel + 1) ('[' :: c :: cs) = items fuel [] (c :: cs) := by
  rw [value, skip_cons rfl]
  simp only
  rw [skip_cons hblank]
  split
  · rename_i heq
    exact absurd (List.cons.inj heq).1 hc
  · rfl

theorem items_comma (h : value fuel cs = some (v, ',' :: rest)) :
    items (fuel + 1) done cs = items fuel (v :: done) rest := by
  rw [items, h]
  rfl

theorem items_close (h : value fuel cs = some (v, ']' :: rest)) :
    items (fuel + 1) done cs = some (.arr (v :: done).reverse, rest) := by
  rw [items, h]
  rfl

end Items

theorem length_writeItems {vs : List Json} (h : ∀ j ∈ vs, ReadsBack j) (rest : List Char) :
    rest.length ≤ (writeItems vs rest).length := by
  induction vs with
  | nil => exact Nat.le_refl _
  | cons v vs ih =>
    obtain ⟨hv, hvs⟩ := List.forall_mem_cons.mp h
    cases vs with
    | nil => exact Nat.le_of_lt (hv.length_lt rest)
    | cons w vs =>
      have hrest := ih hvs
      have hlt := hv.length_lt (',' :: writeItems (w :: vs) rest)
      rw [List.length_cons] at hlt
      rw [writeItems]
      omega

/-- Reading goes on from any item, with those before it already read. The text after an item is shorter by
that item and a comma, which pays for the call that reads it. -/
theorem items_writeItems {v : Json} {vs : List Json} (h : ∀ j ∈ v :: vs, ReadsBack j) (done : List Json)
    (rest : List Char) (fuel : Nat)
    (hfuel : 2 * (writeItems (v :: vs) (']' :: rest)).length + 1 ≤ fuel) :
    items fuel done (writeItems (v :: vs) (']' :: rest)) = some (.arr (done.reverse ++ v :: vs), rest) := by
  induction vs generalizing v done fuel with
  | nil =>
    have hv := h v (List.mem_singleton.mpr rfl)
    cases fuel with
    | zero => omega
    | succ fuel =>
      have hends : Ends (']' :: rest) := .inr (.inl rfl)
      rw [writeItems] at hfuel ⊢
      rw [items_close (hv.value hends (by omega)), List.reverse_cons]
  | cons w vs ih =>
    obtain ⟨hv, hvs⟩ := List.forall_mem_cons.mp h
    cases fuel with
    | zero => omega
    | succ fuel =>
      have hends : Ends (',' :: writeItems (w :: vs) (']' :: rest)) := .inl rfl
      have hlt := hv.length_lt (',' :: writeItems (w :: vs) (']' :: rest))
      rw [List.length_cons] at hlt
      rw [writeItems] at hfuel ⊢
      rw [items_comma (hv.value hends (by omega)), ih hvs (v :: done) fuel (by omega), List.reverse_cons,
        List.append_assoc, List.singleton_append]

theorem opens_writeItems {v : Json} (h : ReadsBack v) (vs : List Json) (rest : List Char) :
    ∃ c cs, writeItems (v :: vs) rest = c :: cs ∧ isBlank c = false ∧ c ≠ ']' := by
  cases vs with
  | nil =>
    obtain ⟨c, cs, hcs, _, hc⟩ := h.opens rest
    exact ⟨c, cs, hcs, hc⟩
  | cons w vs =>
    obtain ⟨c, cs, hcs, _, hc⟩ := h.opens (',' :: writeItems (w :: vs) rest)
    exact ⟨c, cs, hcs, hc⟩

theorem ReadsBack.arr {vs : List Json} (h : ∀ j ∈ vs, ReadsBack j) : ReadsBack (.arr vs) := by
  apply ReadsBack.of_call
  · intro rest
    have hlength := length_writeItems h (']' :: rest)
    rw [List.length_cons] at hlength
    exact ⟨_, _, rfl, by omega, rfl, by decide⟩
  · intro rest fuel _ hfuel
    cases vs with
    | nil => rfl
    | cons v vs =>
      have hv := h v List.mem_cons_self
      obtain ⟨c, cs, hcs, hblank, hc⟩ := opens_writeItems hv vs (']' :: rest)
      rw [write, List.length_cons] at hfuel
      have hitems := items_writeItems h [] rest fuel (by omega)
      rw [write]
      rw [hcs] at hitems ⊢
      rw [value_items hblank hc, hitems]
      rfl

section Members
variable {fuel : Nat} {done : List (Option String × Json)} {v : Json} {cs rest : List Char}

theorem length_writeString (s : Option String) (rest : List Char) :
    rest.length < (writeString s rest).length := by
  simp only [writeString, List.length_cons, List.length_append]
  omega

theorem value_members : value (fuel + 1) ('\x7b' :: '"' :: cs) = members fuel [] ('"' :: cs) := by
  rw [value, skip_cons rfl]
  rfl

theorem members_member (k : String) :
    members (fuel + 1) done (writeString (some k) (':' :: cs)) = (do
      let (v, rest) ← value fuel cs
      match skip rest with
      | ',' :: rest => members fuel ((some k, v) :: done) rest
      | '\x7d' :: rest => some (.obj ((some k, v) :: done).reverse, rest)
      | _ => none) := by
  have hread := readString_escape k (':' :: cs)
  simp only [writeString, Option.getD_some]
  rw [members, skip_cons rfl]
  simp only [hread, bind, Option.bind]
  rw [skip_cons rfl]
  rfl

theorem members_comma (k : String) (h : value fuel cs = some (v, ',' :: rest)) :
    members (fuel + 1) done (writeString (some k) (':' :: cs)) =
      members fuel ((some k, v) :: done) rest := by
  rw [members_member, h]
  rfl

theorem members_close (k : String) (h : value fuel cs = some (v, '\x7d' :: rest)) :
    members (fuel + 1) done (writeString (some k) (':' :: cs)) =
      some (.obj ((some k, v) :: done).reverse, rest) := by
  rw [members_member, h]
  rfl

end Members

def named (ms : List (String × Json)) : List (Option String × Json) := ms.map fun m => (some m.1, m.2)

section Named
variable {m : String × Json} {ms : List (String × Json)}

theorem writeMembers_singleton (rest : List Char) :
    writeMembers (named [m]) rest = writeString (some m.1) (':' :: m.2.write rest) := rfl

theorem writeMembers_cons_cons (n : String × Json) (rest : List Char) :
    writeMembers (named (m :: n :: ms)) rest =
      writeString (some m.1) (':' :: m.2.write (',' :: writeMembers (named (n :: ms)) rest)) := rfl

theorem length_writeMembers (h : ∀ m ∈ ms, ReadsBack m.2) (rest : List Char) :
    rest.length ≤ (writeMembers (named ms) rest).length := by
  induction ms with
  | nil => exact Nat.le_refl _
  | cons m ms ih =>
    obtain ⟨hm, hms⟩ := List.forall_mem_cons.mp h
    cases ms with
    | nil =>
      have hvalue := hm.length_lt rest
      have hkey := length_writeString (some m.1) (':' :: m.2.write rest)
      rw [List.length_cons] at hkey
      rw [writeMembers_singleton]
      omega
    | cons n ms =>
      have hrest := ih hms
      have hvalue := hm.length_lt (',' :: writeMembers (named (n :: ms)) rest)
      have hkey := length_writeString (some m.1) (':' :: m.2.write (',' :: writeMembers (named (n :: ms)) rest))
      rw [List.length_cons] at hvalue hkey
      rw [writeMembers_cons_cons]
      omega

theorem members_writeMembers (h : ∀ m' ∈ m :: ms, ReadsBack m'.2) (done : List (Option String × Json))
    (rest : List Char) (fuel : Nat)
    (hfuel : 2 * (writeMembers (named (m :: ms)) ('\x7d' :: rest)).length + 1 ≤ fuel) :
    members fuel done (writeMembers (named (m :: ms)) ('\x7d' :: rest)) =
      some (.obj (done.reverse ++ named (m :: ms)), rest) := by
  induction ms generalizing m done fuel with
  | nil =>
    have hm := h m (List.mem_singleton.mpr rfl)
    cases fuel with
    | zero => omega
    | succ fuel =>
      have hends : Ends ('\x7d' :: rest) := .inr (.inr rfl)
      have hkey := length_writeString (some m.1) (':' :: m.2.write ('\x7d' :: rest))
      rw [List.length_cons] at hkey
      rw [writeMembers_singleton] at hfuel ⊢
      rw [members_close m.1 (hm.value hends (by omega)), List.reverse_cons]
      rfl
  | cons n ms ih =>
    obtain ⟨hm, hms⟩ := List.forall_mem_cons.mp h
    cases fuel with
    | zero => omega
    | succ fuel =>
      have hends : Ends (',' :: writeMembers (named (n :: ms)) ('\x7d' :: rest)) := .inl rfl
      have hvalue := hm.length_lt (',' :: writeMembers (named (n :: ms)) ('\x7d' :: rest))
      have hkey := length_writeString (some m.1)
        (':' :: m.2.write (',' :: writeMembers (named (n :: ms)) ('\x7d' :: rest)))
      rw [List.length_cons] at hvalue hkey
      rw [writeMembers_cons_cons] at hfuel ⊢
      rw [members_comma m.1 (hm.value hends (by omega)), ih hms _ fuel (by omega), List.reverse_cons,
        List.append_assoc]
      rfl

theorem ReadsBack.record (h : ∀ m ∈ ms, ReadsBack m.2) : ReadsBack (.record ms) := by
  have hwrite : ∀ rest, (Json.record ms).write rest = '\x7b' :: writeMembers (named ms) ('\x7d' :: rest) :=
    fun _ => rfl
  apply ReadsBack.of_call
  · intro rest
    have hlength := length_writeMembers h ('\x7d' :: rest)
    rw [List.length_cons] at hlength
    exact ⟨_, _, hwrite rest, by omega, rfl, by decide⟩
  · intro rest fuel _ hfuel
    rw [hwrite] at hfuel ⊢
    cases ms with
    | nil => rfl
    | cons m ms =>
      rw [List.length_cons] at hfuel
      obtain ⟨cs, hcs⟩ : ∃ cs, writeMembers (named (m :: ms)) ('\x7d' :: rest) = '"' :: cs := by
        cases ms <;> exact ⟨_, rfl⟩
      have hmembers := members_writeMembers h [] rest fuel (by omega)
      rw [hcs] at hmembers ⊢
      rw [value_members, hmembers]
      rfl

end Named

theorem Plain.readsBack {j : Json} (h : Plain j) : ReadsBack j := by
  induction h with
  | null => exact .null
  | bool b => exact .bool b
  | int n => exact .int n
  | string s => exact .string s
  | arr _ ih => exact .arr ih
  | record _ ih => exact .record ih

theorem Plain.read?_text {j : Json} (h : Plain j) : read? j.text = some j := by
  have hvalue : value (2 * (j.write []).length + 2) (j.write []) = some (j, []) :=
    h.readsBack.value trivial (by omega)
  simp only [read?, text, String.toList_ofList]
  rw [hvalue]
  rfl

end Intcode.Json
