import FortigateDns.Go.Names
import FortigateDns.Spec.Target
import Mathlib.Data.List.Destutter

/-!
# Normalizing twice

Names, lists of values and lists of valid filters are left alone by a second normalization. A zone
need not be: `NormalizeDNSName` strips one dot only, and what stands before it may end in a space.

* `lowerTrim_idem`, `normalizeValues_idem`: lower-cased and trimmed text.
-/

namespace FortigateDns

open Go List

variable {s : String}

theorem lowerTrim_idem (s : String) : toLower (trimSpace (toLower (trimSpace s))) = toLower (trimSpace s) := by
  rw [trimSpace_toLower, trimSpace_trimSpace, toLower_toLower]

theorem pairwise_sortStrings (l : List String) :
    (sortStrings l).Pairwise (· ≤ ·) := pairwise_insertionSort _ _

theorem mem_uniqueSorted_of {l : List String} (h : s ∈ uniqueSorted l) : s ∈ l := by
  have hsorted := (destutter_sublist (R := (· ≠ ·)) (sortStrings l)).subset h
  exact (perm_insertionSort _ _).subset hsorted

theorem uniqueSorted_idem (l : List String) : uniqueSorted (uniqueSorted l) = uniqueSorted l := by
  have hsorted : (uniqueSorted l).Pairwise (· ≤ ·) :=
    (pairwise_sortStrings l).sublist (destutter_sublist _ _)
  have hsort : sortStrings (uniqueSorted l) = uniqueSorted l := hsorted.insertionSort_eq
  show (sortStrings (uniqueSorted l)).destutter (· ≠ ·) = uniqueSorted l
  rw [hsort]
  exact destutter_idem _ _

/-- Normalizing again changes nothing where no value changes and none is empty. -/
theorem uniqueSorted_normalized {f : String → String} {l : List String} (hfixed : ∀ s ∈ l, f s = s)
    (hempty : "" ∉ l) : uniqueSorted (((uniqueSorted l).map f).filter (· ≠ "")) = uniqueSorted l := by
  have hmap : (uniqueSorted l).map f = uniqueSorted l := by
    conv_rhs => rw [← map_id (uniqueSorted l)]
    exact map_congr_left fun s hs => hfixed s (mem_uniqueSorted_of hs)
  have hfilter : (uniqueSorted l).filter (· ≠ "") = uniqueSorted l := by
    refine filter_eq_self.2 fun s hs => decide_eq_true fun heq => hempty ?_
    rw [← heq]
    exact mem_uniqueSorted_of hs
  rw [hmap, hfilter, uniqueSorted_idem]

theorem normalizeValues_idem (values : List String) :
    normalizeValues (normalizeValues values) = normalizeValues values := by
  refine uniqueSorted_normalized (f := fun value => toLower (trimSpace value)) (fun s hs => ?_) (by simp)
  obtain ⟨value, -, rfl⟩ := mem_map.1 (mem_filter.1 hs).1
  exact lowerTrim_idem value

theorem normalizeDNSName_plain (h : PlainName s.toList) : normalizeDNSName s = s := by
  unfold normalizeDNSName
  rw [trimSpace_plain h, toLower_plain h, trimSuffix_dot h.last]

/-- A filter that is accepted is the text of a name once it is normalized. -/
theorem plainName_filter {filter : String} (h : validateDomainFilter filter = true) :
    PlainName (normalizeDNSName filter).toList ∧ normalizeDNSName filter ≠ "" := by
  simp only [validateDomainFilter, Bool.and_eq_true, bne_iff_ne] at h
  exact ⟨plainName_subdomain h.1.2, h.1.1⟩

theorem validateDomainFilter_normalized {filter : String} (h : validateDomainFilter filter = true) :
    validateDomainFilter (normalizeDNSName filter) = true := by
  have hfixed : normalizeDNSName (normalizeDNSName filter) = normalizeDNSName filter :=
    normalizeDNSName_plain (plainName_filter h).1
  unfold validateDomainFilter at h ⊢
  have hname : trimSuffix (toLower (trimSpace (normalizeDNSName filter))) "." =
      trimSuffix (toLower (trimSpace filter)) "." := hfixed
  rw [hname]
  exact h

theorem mem_normalizeSuffixes {values : List String} (h : s ∈ normalizeSuffixes values) :
    ∃ value ∈ values, normalizeDNSName value = s := by
  obtain ⟨value, hvalue, rfl⟩ := mem_map.1 (mem_filter.1 (mem_uniqueSorted_of h)).1
  exact ⟨value, hvalue, rfl⟩

/-- Valid filters are not changed again. -/
theorem normalizeSuffixes_idem {values : List String} (h : ∀ value ∈ values, validateDomainFilter value = true) :
    normalizeSuffixes (normalizeSuffixes values) = normalizeSuffixes values := by
  refine uniqueSorted_normalized (f := normalizeDNSName) (fun s hs => ?_) (by simp)
  obtain ⟨value, hvalue, rfl⟩ := mem_map.1 (mem_filter.1 hs).1
  exact normalizeDNSName_plain (plainName_filter (h value hvalue)).1

end FortigateDns
