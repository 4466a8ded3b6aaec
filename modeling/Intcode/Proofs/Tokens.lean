import Intcode.Program
import Mathlib.Data.List.Forall2
import Mathlib.Data.List.TakeWhile
set_option autoImplicit false

/-!
Tokens, said without the functions that find them. A source is cut into the parts that its separators
leave between them, and a token is a part without the blanks at its ends. There is one way to do either.
-/
namespace Intcode

namespace Text

def Trims (part token : List Char) : Prop :=
  ∃ before after, part = before ++ token ++ after ∧
    (∀ c ∈ before, isBlank c = true) ∧ (∀ c ∈ after, isBlank c = true) ∧
    (∀ c ∈ token.head?, isBlank c = false) ∧ ∀ c ∈ token.getLast?, isBlank c = false

section Trimming
variable {cs blanks part token : List Char}

theorem trimStart_append (h : ∀ c ∈ blanks, isBlank c = true) (cs : List Char) :
    trimStart (blanks ++ cs) = trimStart cs := List.dropWhile_append_of_pos h

theorem trimStart_eq_self (h : ∀ c ∈ cs.head?, isBlank c = false) : trimStart cs = cs := by
  cases cs with
  | nil => rfl
  | cons c cs => exact List.dropWhile_cons_of_neg (by simp [h c rfl])

theorem trimEnd_append (h : ∀ c ∈ blanks, isBlank c = true) (cs : List Char) :
    trimEnd (cs ++ blanks) = trimEnd cs := by
  unfold trimEnd
  rw [List.reverse_append, trimStart_append (by simpa using h)]

theorem trimEnd_eq_self (h : ∀ c ∈ cs.getLast?, isBlank c = false) : trimEnd cs = cs := by
  unfold trimEnd
  rw [trimStart_eq_self (by simpa using h), List.reverse_reverse]

theorem exists_trimStart (cs : List Char) :
    ∃ blanks, cs = blanks ++ trimStart cs ∧ (∀ c ∈ blanks, isBlank c = true) ∧
      ∀ c ∈ (trimStart cs).head?, isBlank c = false := by
  refine ⟨cs.takeWhile isBlank, List.takeWhile_append_dropWhile.symm, ?_, ?_⟩
  · intro c hc
    exact List.mem_takeWhile_imp hc
  · intro c hc
    have hhead := List.head?_dropWhile_not isBlank cs
    rw [Option.mem_def] at hc
    rw [trimStart] at hc
    rwa [hc] at hhead

theorem exists_trimEnd (cs : List Char) :
    ∃ blanks, cs = trimEnd cs ++ blanks ∧ (∀ c ∈ blanks, isBlank c = true) ∧
      ∀ c ∈ (trimEnd cs).getLast?, isBlank c = false := by
  obtain ⟨blanks, hcs, hblanks, hhead⟩ := exists_trimStart cs.reverse
  refine ⟨blanks.reverse, ?_, by simpa using hblanks, by simpa [trimEnd] using hhead⟩
  rw [trimEnd, ← List.reverse_append, ← hcs, List.reverse_reverse]

theorem trim_eq_of_trims (h : Trims part token) : trim part = token := by
  obtain ⟨before, after, rfl, hbefore, hafter, hhead, hlast⟩ := h
  unfold trim
  rw [List.append_assoc, trimStart_append hbefore]
  cases token with
  -- Nothing but blanks: they all go at the start.
  | nil =>
    have hnone := trimStart_append hafter []
    rw [List.append_nil] at hnone
    rw [List.nil_append, hnone]
    rfl
  | cons c token =>
    have hstart : trimStart (c :: token ++ after) = c :: token ++ after := trimStart_eq_self hhead
    rw [hstart, trimEnd_append hafter, trimEnd_eq_self hlast]

theorem trims_trim (part : List Char) : Trims part (trim part) := by
  obtain ⟨before, hpart, hbefore, hhead⟩ := exists_trimStart part
  obtain ⟨after, hstart, hafter, hlast⟩ := exists_trimEnd (trimStart part)
  refine ⟨before, after, ?_, hbefore, hafter, ?_, hlast⟩
  · rw [List.append_assoc]
    exact hpart.trans (congrArg (before ++ ·) hstart)
  · intro c hc
    apply hhead
    rw [trim, Option.mem_def] at hc
    rw [hstart, List.head?_append, hc]
    rfl

theorem trims_iff : Trims part token ↔ token = trim part := by
  constructor
  · intro h
    exact (trim_eq_of_trims h).symm
  · rintro rfl
    exact trims_trim part

end Trimming

end Text

namespace Program

/-- The parts are what stands between the separators of the source. -/
structure Cuts (separator : Char) (source : List Char) (parts : List (List Char)) : Prop where
  nonempty : parts ≠ []
  unbroken : ∀ part ∈ parts, separator ∉ part
  joined : [separator].intercalate parts = source

theorem split_eq_splitOn (separator : Char) (source : List Char) :
    split separator source = source.splitOn separator := by
  induction source with
  | nil => rfl
  | cons c rest ih =>
    rw [split, List.splitOn_cons_eq_if_modifyHead, ih]
    by_cases hc : c = separator
    · simp [hc]
    · rw [if_neg hc, if_neg (by simpa using hc)]
      cases h : rest.splitOn separator with
      | nil => exact absurd h (List.splitOn_ne_nil _ _)
      | cons part parts => rfl

theorem separator_not_mem_split {separator : Char} {source part : List Char}
    (h : part ∈ split separator source) : separator ∉ part := by
  induction source generalizing part with
  | nil =>
    obtain rfl := List.mem_singleton.mp h
    exact List.not_mem_nil
  | cons c rest ih =>
    unfold split at h
    split at h
    · obtain rfl | h := List.mem_cons.mp h
      · exact List.not_mem_nil
      · exact ih h
    · rename_i hc
      split at h
      · obtain rfl := List.mem_singleton.mp h
        simpa using Ne.symm hc
      · rename_i first parts hsplit
        rw [hsplit] at ih
        obtain rfl | h := List.mem_cons.mp h
        · have hfirst := ih List.mem_cons_self
          simp [Ne.symm hc, hfirst]
        · exact ih (List.mem_cons_of_mem _ h)

theorem cuts_iff {separator : Char} {source : List Char} {parts : List (List Char)} :
    Cuts separator source parts ↔ parts = split separator source := by
  constructor
  · rintro ⟨hne, hunbroken, rfl⟩
    rw [split_eq_splitOn, List.splitOn_intercalate separator hunbroken hne]
  · rintro rfl
    refine ⟨?_, fun _ => separator_not_mem_split, ?_⟩
    · rw [split_eq_splitOn]
      exact List.splitOn_ne_nil _ _
    · rw [split_eq_splitOn]
      exact List.intercalate_splitOn separator

def Tokenized (source : List Char) (ts : List (List Char)) : Prop :=
  ∃ parts, Cuts ',' source parts ∧ List.Forall₂ Text.Trims parts ts

theorem tokenized_iff {source : List Char} {ts : List (List Char)} :
    Tokenized source ts ↔ ts = tokens source := by
  have htrims : List.Forall₂ Text.Trims (split ',' source) ts ↔ ts = tokens source := by
    have hrel : Text.Trims = fun part token => Text.trim part = token := by
      funext part token
      exact propext (Text.trims_iff.trans eq_comm)
    rw [hrel, ← List.forall₂_map_left_iff, List.forall₂_eq_eq_eq]
    exact eq_comm
  constructor
  · rintro ⟨parts, hcuts, h⟩
    obtain rfl := cuts_iff.mp hcuts
    exact htrims.mp h
  · intro h
    exact ⟨_, cuts_iff.mpr rfl, htrims.mpr h⟩

end Program

end Intcode
