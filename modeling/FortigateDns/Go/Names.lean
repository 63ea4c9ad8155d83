import FortigateDns.Go.Casing
import FortigateDns.Go.Validation

/-!
# Names that a validation accepted

A subdomain has no spaces, no capital letters and no dot at its end, so nothing is left to trim.

* `toLower_plain`, `trimSpace_plain`, `trimSuffix_dot`: **the string functions leave it alone.**
-/

namespace Go

open List

variable {c : Char} {s : String}

/-- A character of a name in lower case. -/
def isNameChar (c : Char) : Bool := isLowerAlnum c || c == '-' || c == '.'

theorem isLowerAlnum_toNat (h : isLowerAlnum c = true) :
    48 ≤ c.toNat ∧ c.toNat ≤ 57 ∨ 97 ≤ c.toNat ∧ c.toNat ≤ 122 := by
  simp only [isLowerAlnum, Bool.or_eq_true, Bool.and_eq_true, decide_eq_true_eq] at h
  exact h.symm

theorem isNameChar_toNat (h : isNameChar c = true) :
    c.toNat = 45 ∨ c.toNat = 46 ∨ 48 ≤ c.toNat ∧ c.toNat ≤ 57 ∨ 97 ≤ c.toNat ∧ c.toNat ≤ 122 := by
  simp only [isNameChar, Bool.or_eq_true, beq_iff_eq] at h
  rcases h with (h | rfl) | rfl
  · exact Or.inr (Or.inr (isLowerAlnum_toNat h))
  · exact Or.inl rfl
  · exact Or.inr (Or.inl rfl)

theorem lowerChar_name (h : isNameChar c = true) : lowerChar c = c := by
  have hrange := isNameChar_toNat h
  have hcapital : ¬ ('A' ≤ c ∧ c ≤ 'Z') := by
    show ¬ (65 ≤ c.toNat ∧ c.toNat ≤ 90)
    omega
  unfold lowerChar
  rw [if_pos (by omega), if_neg hcapital]

theorem isSpace_name (h : isNameChar c = true) : isSpace c = false := by
  have hrange := isNameChar_toNat h
  rw [← Bool.not_eq_true, isSpace_iff, any_eq_true]
  simp only [spaceRanges, mem_cons, not_mem_nil, or_false, exists_eq_or_imp, exists_eq_left, Bool.and_eq_true,
    decide_eq_true_eq]
  omega

/-- **The text of a name**: characters of names, and no dot at the end. -/
structure PlainName (l : List Char) : Prop where
  chars : ∀ c ∈ l, isNameChar c = true
  last : l.getLast? ≠ some '.'

theorem intercalate_mem {α : Type} {sep c : α} {ls : List (List α)} (h : c ∈ [sep].intercalate ls) :
    c = sep ∨ ∃ l ∈ ls, c ∈ l := by
  induction ls with
  | nil => simp at h
  | cons l ls ih =>
    cases ls with
    | nil =>
      rw [intercalate_singleton] at h
      exact Or.inr ⟨l, mem_cons_self, h⟩
    | cons l' ls =>
      rw [intercalate_cons_cons, mem_append, mem_append, mem_singleton] at h
      rcases h with (h | h) | h
      · exact Or.inr ⟨l, mem_cons_self, h⟩
      · exact Or.inl h
      · exact (ih h).imp_right fun ⟨k, hk, hc⟩ => ⟨k, mem_cons_of_mem _ hk, hc⟩

/-- A subdomain is the text of a name. -/
theorem plainName_subdomain (h : isDNS1123Subdomain s = true) : PlainName s.toList := by
  have hlabels : ∀ label ∈ labels s.toList, labelPattern label = true :=
    all_eq_true.1 (Bool.and_eq_true_iff.1 h).2
  refine ⟨fun c hc => ?_, fun hlast => ?_⟩
  · have hjoin : ['.'].intercalate (labels s.toList) = s.toList := intercalate_splitOn '.'
    rw [← hjoin] at hc
    rcases intercalate_mem hc with rfl | ⟨label, hlabel, hc⟩
    · rfl
    · have hpattern := hlabels label hlabel
      simp only [labelPattern, Bool.and_eq_true, all_eq_true] at hpattern
      have hchar := hpattern.1.1.2 c hc
      unfold isNameChar
      rw [hchar, Bool.true_or]
  · -- a dot at the end leaves an empty label
    obtain ⟨first, hfirst⟩ := getLast?_eq_some_iff.1 hlast
    have hempty : [] ∈ labels s.toList := by
      unfold labels
      rw [hfirst, splitOn_append_cons_self]
      simp
    exact absurd (hlabels [] hempty) (by decide)

theorem toLower_plain (h : PlainName s.toList) : toLower s = s := by
  unfold toLower
  rw [map_congr_left fun c hc => lowerChar_name (h.chars c hc), map_id', String.ofList_toList]

theorem trimSpace_plain (h : PlainName s.toList) : trimSpace s = s := by
  unfold trimSpace
  rw [trimBoth_eq_self, String.ofList_toList]
  · exact fun c hc => isSpace_name (h.chars c (mem_of_mem_head? hc))
  · exact fun c hc => isSpace_name (h.chars c (mem_of_mem_getLast? hc))

theorem trimSuffix_dot (h : s.toList.getLast? ≠ some '.') : trimSuffix s "." = s := by
  have hno : hasSuffix s "." = false := by
    rw [← Bool.not_eq_true, hasSuffix, isSuffixOf_iff_suffix]
    rintro ⟨first, hfirst⟩
    refine h ?_
    rw [← hfirst]
    simp
  unfold trimSuffix cutSuffix
  rw [hno]
  rfl

end Go
