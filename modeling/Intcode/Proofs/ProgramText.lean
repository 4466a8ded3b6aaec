import Intcode.Proofs.Fallible
import Intcode.Proofs.JsonText
import Intcode.Proofs.Literals
import Intcode.Proofs.Tokens
set_option autoImplicit false

/-!
Program text. A source is a program when each of its tokens is an integer that a cell can hold, and if not,
the first token that is none is blamed, and in it the first character that is at fault. What is written for
a program is read as that program, so canonical texts and programs that are not empty are one to one.
-/
namespace Intcode.Program

open Text

def Denotes (token : List Char) : Prop :=
  ∃ n, Decimal.Literal token n ∧ Cell.least ≤ n ∧ n ≤ Cell.greatest

section Reading
variable {token : List Char} {ts : List (List Char)} {c : Cell} {cells : List Cell} {e : ParseError}

theorem readCell_eq_ok_iff : readCell token = .ok c ↔ Decimal.Literal token c.toInt := by
  have hread : ∀ n, Decimal.read Decimal.cell token = .ok n ↔
      Decimal.Literal token n ∧ Decimal.cell.Holds n := fun n =>
    Decimal.read_eq_ok_iff rfl (by decide) (by decide)
  refine Fallible.map_eq_ok.trans ?_
  constructor
  · rintro ⟨n, hn, rfl⟩
    obtain ⟨hliteral, hlo, hhi⟩ := (hread n).mp hn
    rwa [Int64.toInt_ofInt_of_le hlo (Int.lt_add_one_of_le hhi)]
  · intro h
    exact ⟨c.toInt, (hread _).mpr ⟨h, c.least_le_toInt, c.toInt_le_greatest⟩, Int64.ofInt_toInt c⟩

theorem readCell_eq_error_iff {fault : Decimal.Fault} :
    readCell token = .error fault ↔ Decimal.Blames Decimal.cell token fault := by
  refine Fallible.map_eq_error.trans ?_
  exact Decimal.read_eq_error_iff rfl (by decide) (by decide)

theorem denotes_iff : Denotes token ↔ ∃ c, readCell token = .ok c := by
  simp only [readCell_eq_ok_iff]
  constructor
  · rintro ⟨n, h, hlo, hhi⟩
    exact ⟨Int64.ofInt n, by rwa [Int64.toInt_ofInt_of_le hlo (Int.lt_add_one_of_le hhi)]⟩
  · rintro ⟨c, h⟩
    exact ⟨c.toInt, h, c.least_le_toInt, c.toInt_le_greatest⟩

theorem readTokens_eq_ok_iff {index : Nat} : readTokens index ts = .ok cells ↔
    List.Forall₂ (fun t c => Decimal.Literal t c.toInt) ts cells := by
  induction ts generalizing index cells with
  | nil => simp [readTokens, eq_comm]
  | cons t ts ih =>
    unfold readTokens
    cases hread : readCell t with
    | error fault =>
      simp only [reduceCtorEq, false_iff]
      intro h
      cases h with
      | cons ht _ => simp [readCell_eq_ok_iff.mpr ht] at hread
    | ok c =>
      simp only
      refine Fallible.map_eq_ok.trans ?_
      constructor
      · rintro ⟨rest, hrest, rfl⟩
        exact .cons (readCell_eq_ok_iff.mp hread) (ih.mp hrest)
      · intro h
        cases h with
        | @cons _ c' _ rest ht hrest =>
          obtain rfl : c = c' := Except.ok.inj (hread.symm.trans (readCell_eq_ok_iff.mpr ht))
          exact ⟨rest, ih.mpr hrest, rfl⟩

theorem readTokens_eq_error_iff {index : Nat} : readTokens index ts = .error e ↔
    ∃ front t rest, ts = front ++ t :: rest ∧ (∀ t' ∈ front, Denotes t') ∧
      e.index = index + front.length ∧ e.token = String.ofList t ∧
      Decimal.Blames Decimal.cell t e.fault := by
  simp only [denotes_iff, ← readCell_eq_error_iff]
  induction ts generalizing index with
  | nil => simp [readTokens]
  | cons t ts ih =>
    unfold readTokens
    cases hread : readCell t with
    | error fault =>
      simp only [Except.error.injEq]
      constructor
      · rintro rfl
        exact ⟨[], t, ts, rfl, by simp, rfl, rfl, hread⟩
      · rintro ⟨front, t', rest, heq, hfront, hindex, htoken, hfault⟩
        cases front with
        | nil =>
          obtain ⟨rfl, rfl⟩ := List.cons.inj heq
          rw [hread, Except.error.injEq] at hfault
          rw [hfault, ← htoken]
          exact congrArg (ParseError.mk · e.token e.fault) hindex.symm
        | cons t'' front =>
          obtain ⟨rfl, _⟩ := List.cons.inj heq
          obtain ⟨c, hc⟩ := hfront t List.mem_cons_self
          simp [hc] at hread
    | ok c =>
      simp only
      refine Fallible.map_eq_error.trans (ih.trans ?_)
      constructor
      · rintro ⟨front, t', rest, rfl, hfront, hindex, h⟩
        refine ⟨t :: front, t', rest, rfl, List.forall_mem_cons.mpr ⟨⟨c, hread⟩, hfront⟩, ?_, h⟩
        rw [hindex, List.length_cons]
        omega
      · rintro ⟨front, t', rest, heq, hfront, hindex, htoken, hfault⟩
        cases front with
        | nil =>
          obtain ⟨rfl, _⟩ := List.cons.inj heq
          simp [hread] at hfault
        | cons t'' front =>
          obtain ⟨_, rfl⟩ := List.cons.inj heq
          refine ⟨front, t', rest, rfl, fun _ h => hfront _ (List.mem_cons_of_mem _ h), ?_, htoken, hfault⟩
          rw [hindex, List.length_cons]
          omega

theorem parse_eq_ok_iff {source : String} {p : Array Cell} :
    parse source = .ok p ↔ readTokens 0 (tokens source.toList) = .ok p.toList := by
  refine Fallible.map_eq_ok.trans ?_
  constructor
  · rintro ⟨cells, h, rfl⟩
    exact h
  · intro h
    exact ⟨p.toList, h, rfl⟩

theorem parse_eq_error_iff {source : String} :
    parse source = .error e ↔ readTokens 0 (tokens source.toList) = .error e := Fallible.map_eq_error

theorem denotes_of_literals (h : List.Forall₂ (fun t c => Decimal.Literal t c.toInt) ts cells) :
    ∀ t ∈ ts, Denotes t := by
  induction h with
  | nil => simp
  | cons ht _ ih => exact List.forall_mem_cons.mpr ⟨denotes_iff.mpr ⟨_, readCell_eq_ok_iff.mpr ht⟩, ih⟩

theorem not_denotes_of_blames {fault : Decimal.Fault} (h : Decimal.Blames Decimal.cell token fault) :
    ¬ Denotes token := by
  intro hdenotes
  obtain ⟨c, hc⟩ := denotes_iff.mp hdenotes
  simp [readCell_eq_error_iff.mpr h] at hc

/-- A source cut at every comma and trimmed has one list of tokens. It is a program if and only if all of
them are integers that a cell can hold, in this order; otherwise the error is about the first that is not,
and about the first character in it that is at fault. -/
theorem parse_blames_first_bad_token (source : String) :
    ∃ ts, (∀ ts', Tokenized source.toList ts' ↔ ts' = ts) ∧
      ((∃ p, parse source = .ok p) ↔ ∀ t ∈ ts, Denotes t) ∧
      (∀ p, parse source = .ok p ↔ List.Forall₂ (fun t c => Decimal.Literal t c.toInt) ts p.toList) ∧
      ∀ e, parse source = .error e ↔ ∃ front t rest, ts = front ++ t :: rest ∧
        (∀ t' ∈ front, Denotes t') ∧ ¬ Denotes t ∧ e.index = front.length ∧
        e.token = String.ofList t ∧ Decimal.Blames Decimal.cell t e.fault := by
  have hok : ∀ p, parse source = .ok p ↔
      List.Forall₂ (fun t c => Decimal.Literal t c.toInt) (tokens source.toList) p.toList := fun p =>
    parse_eq_ok_iff.trans readTokens_eq_ok_iff
  have herror : ∀ e, parse source = .error e ↔ ∃ front t rest, tokens source.toList = front ++ t :: rest ∧
      (∀ t' ∈ front, Denotes t') ∧ ¬ Denotes t ∧ e.index = front.length ∧
      e.token = String.ofList t ∧ Decimal.Blames Decimal.cell t e.fault := by
    intro e
    refine (parse_eq_error_iff.trans readTokens_eq_error_iff).trans ?_
    simp only [Nat.zero_add]
    constructor
    · rintro ⟨front, t, rest, hts, hfront, hindex, htoken, hblames⟩
      exact ⟨front, t, rest, hts, hfront, not_denotes_of_blames hblames, hindex, htoken, hblames⟩
    · rintro ⟨front, t, rest, hts, hfront, _, h⟩
      exact ⟨front, t, rest, hts, hfront, h⟩
  refine ⟨tokens source.toList, fun _ => tokenized_iff, ⟨?_, ?_⟩, hok, herror⟩
  · rintro ⟨p, hp⟩
    exact denotes_of_literals ((hok p).mp hp)
  · intro hall
    cases hparse : parse source with
    | ok p => exact ⟨p, rfl⟩
    | error e =>
      obtain ⟨front, t, rest, hts, _, hbad, _⟩ := (herror e).mp hparse
      exact absurd (hall t (by simp [hts])) hbad

end Reading

example : parse " +7,\u00a0-08 ,9223372036854775808x,y" = .error ⟨2, "9223372036854775808x", .tooLarge⟩ := by
  decide +kernel

section Writing

theorem literal_chars (n : Int) : Decimal.Literal (Decimal.chars n) n := by
  have hvalue : ∀ k, Nat.ofDigitChars 10 (Nat.toDigits 10 k) 0 = k :=
    fun _ => Nat.ofDigitChars_ten_toDigits
  cases n with
  | ofNat k =>
    obtain ⟨c, cs, hcs, hc⟩ := Json.exists_toDigits_eq_cons k
    have hsign : ∀ s : Char, s.isDigit = false → (Decimal.chars (.ofNat k)).head? ≠ some s := by
      intro s hs
      rw [Decimal.chars, hcs, List.head?_cons, ne_eq, Option.some.injEq]
      rintro rfl
      simp [hs] at hc
    refine ⟨false, Nat.toDigits 10 k, .bare (hsign '+' rfl) (hsign '-' rfl), Nat.toDigits_ne_nil,
      Json.toDigits_all k, ?_⟩
    simp [Decimal.signed, hvalue]
  | negSucc k =>
    refine ⟨true, Nat.toDigits 10 (k + 1), .minus _, Nat.toDigits_ne_nil, Json.toDigits_all (k + 1), ?_⟩
    simp [Decimal.signed, hvalue]
    omega

theorem startsNumber_of_mem_chars {n : Int} {c : Char} (h : c ∈ Decimal.chars n) : Json.StartsNumber c := by
  cases n with
  | ofNat k => exact .inr (Json.toDigits_all k c h)
  | negSucc k =>
    obtain rfl | h := List.mem_cons.mp h
    · exact .inl rfl
    · exact .inr (Json.toDigits_all (k + 1) c h)

theorem not_blank_of_startsNumber {c : Char} (h : Json.StartsNumber c) : isBlank c = false := by
  obtain rfl | hdigit := h
  · rfl
  · have hbounds : 48 ≤ c.toNat ∧ c.toNat ≤ 57 := Char.isDigit_iff_toNat.mp hdigit
    simp only [isBlank, Bool.or_eq_false_iff, Bool.and_eq_false_iff, decide_eq_false_iff_not,
      beq_eq_false_iff_ne]
    omega

theorem trim_chars (n : Int) : trim (Decimal.chars n) = Decimal.chars n := by
  have hblank : ∀ c ∈ Decimal.chars n, isBlank c = false := fun _ h =>
    not_blank_of_startsNumber (startsNumber_of_mem_chars h)
  apply trim_eq_of_trims
  refine ⟨[], [], by simp, by simp, by simp, ?_, ?_⟩
  · intro c hc
    exact hblank c (List.mem_of_mem_head? hc)
  · intro c hc
    exact hblank c (List.mem_of_mem_getLast? hc)

theorem tokens_chars {cells : List Cell} (h : cells ≠ []) :
    tokens (chars cells) = cells.map fun c => Decimal.chars c.toInt := by
  have hcomma : ∀ t ∈ cells.map (fun c => Decimal.chars c.toInt), ',' ∉ t := by
    intro t ht hmem
    obtain ⟨c, _, rfl⟩ := List.mem_map.mp ht
    exact absurd (startsNumber_of_mem_chars hmem) (by decide)
  unfold tokens chars
  rw [split_eq_splitOn, List.splitOn_intercalate ',' hcomma (by simpa using h), List.map_map]
  exact List.map_congr_left fun c _ => trim_chars c.toInt

theorem parse_format {cells : Array Cell} (h : cells ≠ #[]) : parse (format cells) = .ok cells := by
  have hne : cells.toList ≠ [] := by simpa using h
  rw [parse_eq_ok_iff, format, String.toList_ofList, tokens_chars hne, readTokens_eq_ok_iff,
    List.forall₂_map_left_iff, List.forall₂_same]
  intro c _
  exact literal_chars c.toInt

theorem ne_empty_of_parse {source : String} {p : Array Cell} (h : parse source = .ok p) : p ≠ #[] := by
  rintro rfl
  have htokens := readTokens_eq_ok_iff.mp (parse_eq_ok_iff.mp h)
  rw [List.forall₂_nil_right_iff, tokens, List.map_eq_nil_iff, split_eq_splitOn] at htokens
  exact List.splitOn_ne_nil _ _ htokens

end Writing

/-- A program that is not empty is read back from its canonical text, every program that is read is not
empty, and so accepted sources have the same canonical text exactly when they are the same program. The
text of the empty program is that of one empty token. -/
theorem parse_format_round_trips :
    (∀ p : Array Cell, p ≠ #[] → parse (format p) = .ok p) ∧
    (∀ s p, parse s = .ok p → p ≠ #[] ∧ parse (format p) = .ok p) ∧
    (∀ s s' p p', parse s = .ok p → parse s' = .ok p' → (format p = format p' ↔ p = p')) ∧
    parse (format #[]) = .error ⟨0, "", .empty⟩ := by
  refine ⟨fun p h => parse_format h, ?_, ?_, rfl⟩
  · intro s p h
    exact ⟨ne_empty_of_parse h, parse_format (ne_empty_of_parse h)⟩
  · intro s s' p p' h h'
    constructor
    · intro heq
      have hback := parse_format (ne_empty_of_parse h)
      rw [heq, parse_format (ne_empty_of_parse h')] at hback
      exact (Except.ok.inj hback).symm
    · rintro rfl
      rfl

/-- The cells at both ends of the range, written in another way too, and a program of one cell. -/
theorem parse_format_extremes :
    let p : Array Cell := #[-9223372036854775808, 9223372036854775807, 0]
    let source := " -9223372036854775808,\t+09223372036854775807,\u3000-0\n"
    p ≠ #[] ∧ parse source = .ok p ∧ parse "+07" = .ok #[7] ∧ parse (format p) = .ok p ∧
      (#[(7 : Cell)] ≠ #[] ∧ parse (format #[7]) = .ok #[7]) ∧ (format p = format #[7] ↔ p = #[7]) := by
  intro p source
  have hne : p ≠ #[] := by decide
  have hsource : parse source = .ok p := by decide +kernel
  have hother : parse "+07" = .ok #[7] := by decide +kernel
  obtain ⟨hwritten, hread, hsame, _⟩ := parse_format_round_trips
  exact ⟨hne, hsource, hother, hwritten p hne, hread _ _ hother, hsame _ _ _ _ hsource hother⟩

end Intcode.Program
