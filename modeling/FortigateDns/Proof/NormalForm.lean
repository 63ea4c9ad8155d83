import FortigateDns.Go.Subdomain
import FortigateDns.Proof.TargetNames

/-!
# What `NormalizeDNSName` leaves

A normalized name is in lower case and begins with no space, so that a second normalization works
at its end only.

* `rightNormal`, `normalizeDNSName_twice`: **a second normalization trims the end once more.**
-/

namespace FortigateDns

open Go List

variable {r : List Char}
variable (l : List Char) (s : String)

/-- One dot is dropped from the end. -/
def cutDot (l : List Char) : List Char := if ['.'] <:+ l then l.dropLast else l

/-- Spaces are dropped from the end. -/
def trimRight (l : List Char) : List Char := (l.reverse.dropWhile isSpace).reverse

/-- Spaces, then one dot. -/
def rightNormal (l : List Char) : List Char := cutDot (trimRight l)

theorem cutDot_initial : cutDot l <+: l := by
  unfold cutDot
  split
  · exact dropLast_prefix l
  · exact prefix_rfl

theorem cutDot_append (hr : r ≠ []) : cutDot (l ++ r) = l ++ cutDot r := by
  have hends : ['.'] <:+ l ++ r ↔ ['.'] <:+ r := by
    rw [singleton_suffix_iff_getLast?_eq_some, singleton_suffix_iff_getLast?_eq_some,
      getLast?_append_of_ne_nil _ hr]
  unfold cutDot
  by_cases h : ['.'] <:+ r
  · rw [if_pos h, if_pos (hends.2 h), dropLast_append_of_ne_nil hr]
  · rw [if_neg h, if_neg (mt hends.1 h)]

theorem trimRight_append (hr : trimRight r ≠ []) : trimRight (l ++ r) = l ++ trimRight r := by
  unfold trimRight at hr ⊢
  rw [reverse_append, dropWhile_append, if_neg, reverse_append, reverse_reverse]
  rw [List.isEmpty_iff]
  intro hnil
  rw [hnil] at hr
  exact hr rfl

/-- **The end of a text is normalized like the text.** -/
theorem rightNormal_append (hr : trimRight r ≠ []) : rightNormal (l ++ r) = l ++ rightNormal r := by
  unfold rightNormal
  rw [trimRight_append l hr, cutDot_append l hr]

theorem trimRight_cons_ne_nil {c : Char} (hc : isSpace c = false) (l : List Char) : trimRight (c :: l) ≠ [] := by
  unfold trimRight
  rw [Ne, reverse_eq_nil_iff, dropWhile_eq_nil_iff]
  intro h
  have hspace := h c (mem_reverse.2 mem_cons_self)
  rw [hc] at hspace
  cases hspace

theorem toList_trimSuffix_dot : (trimSuffix s ".").toList = cutDot s.toList := by
  have hdot : hasSuffix s "." = true ↔ ['.'] <:+ s.toList := by
    rw [hasSuffix, isSuffixOf_iff_suffix]
    rfl
  unfold trimSuffix cutSuffix cutDot
  by_cases h : ['.'] <:+ s.toList
  · rw [if_pos (hdot.2 h), if_pos h, Option.getD_some, String.toList_ofList, dropLast_eq_take]
    rfl
  · rw [if_neg (mt hdot.1 h), if_neg h]
    rfl

/-- `NormalizeDNSName` on the characters. -/
theorem toList_normalizeDNSName :
    (normalizeDNSName s).toList = cutDot ((trimBoth isSpace s.toList).map lowerChar) := by
  unfold normalizeDNSName
  rw [toList_trimSuffix_dot, toLower, String.toList_ofList, trimSpace, String.toList_ofList]

/-- **The characters of a normalized name**: lower case, and no space in front. -/
structure Normalized (l : List Char) : Prop where
  lower : l.map lowerChar = l
  head : ∀ c ∈ l.head?, isSpace c = false

theorem normalized_normalizeDNSName : Normalized (normalizeDNSName s).toList := by
  have hinit := cutDot_initial ((trimBoth isSpace s.toList).map lowerChar)
  rw [← toList_normalizeDNSName] at hinit
  constructor
  · conv_rhs => rw [← map_id (normalizeDNSName s).toList]
    refine map_congr_left fun c hc => ?_
    obtain ⟨d, -, rfl⟩ := mem_map.1 (hinit.mem hc)
    exact lowerChar_lowerChar d
  · intro c hc
    obtain ⟨rest, hrest⟩ := hinit
    have hne : (normalizeDNSName s).toList ≠ [] := by
      intro hnil
      rw [hnil] at hc
      cases hc
    have hhead : ((trimBoth isSpace s.toList).map lowerChar).head? = some c := by
      rw [← hrest, head?_append_of_ne_nil _ hne]
      exact hc
    rw [head?_map, Option.map_eq_some_iff] at hhead
    obtain ⟨d, hd, rfl⟩ := hhead
    rw [isSpace_lowerChar]
    exact trimBoth_head? s.toList d hd

theorem trimBoth_normalized {l : List Char} (h : ∀ c ∈ l.head?, isSpace c = false) :
    trimBoth isSpace l = trimRight l := by
  have hdrop : l.dropWhile isSpace = l := by
    cases l with
    | nil => rfl
    | cons c l => rw [dropWhile_cons, h c rfl, if_neg Bool.false_ne_true]
  unfold trimBoth trimRight
  rw [hdrop]

/-- **A normalized text is normalized at its end only.** -/
theorem normalizeDNSName_of_normalized {s : String} (h : Normalized s.toList) :
    (normalizeDNSName s).toList = rightNormal s.toList := by
  have hlower : (trimRight s.toList).map lowerChar = trimRight s.toList := by
    unfold trimRight
    rw [map_reverse, ← dropWhile_map isSpace_lowerChar, map_reverse, h.lower]
  rw [toList_normalizeDNSName, trimBoth_normalized h.head, hlower, rightNormal]

theorem normalizeDNSName_twice :
    (normalizeDNSName (normalizeDNSName s)).toList = rightNormal (normalizeDNSName s).toList :=
  normalizeDNSName_of_normalized (normalized_normalizeDNSName s)

/-- The text of a name is not changed. -/
theorem normalizeDNSName_text {s : String} (h : NameText s.toList) : normalizeDNSName s = s := by
  refine normalizeDNSName_plain ⟨h.chars, fun hdot => ?_⟩
  obtain ⟨c, hc, halnum⟩ := h.last
  rw [hdot] at hc
  cases hc
  exact absurd halnum (by decide)

end FortigateDns
