import FortigateDns.Go.Suffixes
import FortigateDns.Spec.GatewaySource
import Mathlib.Data.Set.Basic

/-!
# The intersection of hostnames is exact

A hostname of a route or a listener stands for a set of names.

* `intersectHostname_exact`: **`intersectHostname` finds the intersection of the two sets**, and nothing
  if and only if it is empty: two wildcards are nested or disjoint.
-/

namespace FortigateDns.Source

open Go List

variable {h s x : String}

/-- `h` begins with the wildcard label. -/
theorem wildcard_iff (h : String) : hasPrefix h "*." = true ↔ ∃ s : String, h = "*." ++ s := by
  rw [hasPrefix, isPrefixOf_iff_prefix]
  constructor
  · rintro ⟨s, hs⟩
    refine ⟨String.ofList s, String.toList_injective ?_⟩
    rw [String.toList_append, ← hs, String.toList_ofList (l := s)]
  · rintro ⟨s, rfl⟩
    rw [String.toList_append]
    exact prefix_append _ _

theorem toList_wildcard (s : String) : ("*." ++ s).toList = '*' :: '.' :: s.toList := by
  rw [String.toList_append]
  rfl

theorem trimPrefix_wildcard (s : String) : trimPrefix ("*." ++ s) "*." = s := by
  unfold trimPrefix
  rw [if_pos ((wildcard_iff _).2 ⟨s, rfl⟩), toList_wildcard]
  exact String.ofList_toList

theorem trimPrefix_concrete (hwild : hasPrefix h "*." = false) : trimPrefix h "*." = h := by
  unfold trimPrefix
  rw [hwild]
  rfl

/-- The text behind the asterisk. -/
theorem tail_wildcard (s : String) : String.ofList (("*." ++ s).toList.drop 1) = "." ++ s := by
  refine String.toList_injective ?_
  rw [String.toList_ofList, toList_wildcard, String.toList_append]
  rfl

/-- The labels are not too long. -/
def ShortLabels (l : List Char) : Prop := (labels l).all (fun label => decide (label.length ≤ 63)) = true

theorem validHostname_concrete (hwild : hasPrefix h "*." = false) :
    validHostname h = true ↔ h.toList.length ≤ 253 ∧ NameText h.toList ∧ ShortLabels h.toList := by
  unfold validHostname
  dsimp only
  rw [trimPrefix_concrete hwild]
  constructor
  · intro hvalid
    split at hvalid
    · cases hvalid
    split at hvalid
    · cases hvalid
    rename_i hsize hname
    rw [not_or, Bool.not_eq_false, isDNS1123Subdomain_iff] at hname
    exact ⟨hname.2.1, hname.2.2, hvalid⟩
  · rintro ⟨hsize, hname, hlabels⟩
    have hlength : h.toList.length ≠ 0 := by
      rw [length_eq_zero_iff.ne]
      exact hname.ne_nil
    have hne : h ≠ "" := by
      rintro rfl
      exact hname.ne_nil rfl
    rw [if_neg (not_or.2 ⟨hlength, Nat.not_lt.2 hsize⟩), if_neg]
    · exact hlabels
    · rw [not_or, Bool.not_eq_false, isDNS1123Subdomain_iff]
      exact ⟨hne, hsize, hname⟩

theorem validHostname_wildcard {s : String} (hvalid : validHostname ("*." ++ s) = true) :
    s.toList.length + 2 ≤ 253 ∧ NameText s.toList ∧ ShortLabels s.toList := by
  unfold validHostname at hvalid
  dsimp only at hvalid
  rw [trimPrefix_wildcard, toList_wildcard, length_cons, length_cons] at hvalid
  split at hvalid
  · cases hvalid
  split at hvalid
  · cases hvalid
  rename_i hsize hname
  rw [not_or, Nat.not_lt] at hsize
  rw [not_or, Bool.not_eq_false, isDNS1123Subdomain_iff] at hname
  exact ⟨hsize.2, hname.2.2, hvalid⟩

theorem concrete_of_head (hhead : h.toList.head? ≠ some '*') : hasPrefix h "*." = false := by
  rw [← Bool.not_eq_true, wildcard_iff]
  rintro ⟨s, rfl⟩
  rw [toList_wildcard] at hhead
  exact hhead rfl

/-- A valid wildcard has a valid name under it. -/
theorem validHostname_under (h : validHostname ("*." ++ s) = true) :
    validHostname ("a." ++ s) = true ∧ hasPrefix ("a." ++ s) "*." = false := by
  obtain ⟨hsize, hname, hlabels⟩ := validHostname_wildcard h
  have htext : ("a." ++ s).toList = ['a'] ++ '.' :: s.toList := by
    rw [String.toList_append]
    rfl
  have hconcrete : hasPrefix ("a." ++ s) "*." = false := by
    refine concrete_of_head ?_
    rw [htext, cons_append, head?_cons]
    decide
  refine ⟨(validHostname_concrete hconcrete).2 ?_, hconcrete⟩
  rw [htext]
  refine ⟨by rw [length_append, length_singleton, length_cons]; omega,
    nameText_dot_iff.2 ⟨(labels_iff _).1 (by decide), hname⟩, ?_⟩
  unfold ShortLabels labels
  rw [splitOn_append_cons_self_of_not_mem (by decide), all_cons]
  exact hlabels

theorem validHostname_ne_empty (hvalid : validHostname h = true) : h ≠ "" := by
  rintro rfl
  exact absurd hvalid (by decide)

/-- **What a hostname stands for**, among the given names: the empty one for all, a wildcard for the
names with something before its suffix, any other for itself. -/
def denotes (names : Set String) (h : String) : Set String :=
  if h = "" then names
  else if hasPrefix h "*." then { x | x ∈ names ∧ ∃ first, first ≠ "" ∧ x = first ++ "." ++ trimPrefix h "*." }
  else { h }

section Denotes

variable {names : Set String}

theorem denotes_empty : denotes names "" = names := if_pos rfl

theorem denotes_concrete (hne : h ≠ "") (hwild : hasPrefix h "*." = false) : denotes names h = { h } := by
  unfold denotes
  rw [if_neg hne, hwild]
  rfl

theorem mem_denotes_wildcard :
    x ∈ denotes names ("*." ++ s) ↔ x ∈ names ∧ ∃ first, first ≠ [] ∧ x.toList = first ++ '.' :: s.toList := by
  have hne : "*." ++ s ≠ "" := by
    intro h
    have := congrArg String.toList h
    rw [toList_wildcard] at this
    cases this
  unfold denotes
  rw [if_neg hne, if_pos ((wildcard_iff _).2 ⟨s, rfl⟩), trimPrefix_wildcard, Set.mem_ofPred_eq]
  refine and_congr_right fun _ => ⟨?_, ?_⟩
  · rintro ⟨first, hfirst, rfl⟩
    refine ⟨first.toList, fun h => hfirst (String.toList_injective h), ?_⟩
    rw [String.toList_append, String.toList_append, append_assoc]
    rfl
  · rintro ⟨first, hfirst, hx⟩
    refine ⟨String.ofList first, fun h => hfirst ?_, String.toList_injective ?_⟩
    · rw [← String.toList_ofList (l := first), h]
      rfl
    · rw [hx, String.toList_append, String.toList_append, String.toList_ofList, append_assoc]
      rfl

/-- A valid concrete name that ends in the suffix of a wildcard is under it. -/
theorem concrete_under_iff (hx : x ∈ names) (hname : NameText x.toList) :
    x ∈ denotes names ("*." ++ s) ↔ '.' :: s.toList <:+ x.toList := by
  rw [mem_denotes_wildcard, and_iff_right hx]
  constructor
  · rintro ⟨first, -, hfirst⟩
    exact ⟨first, hfirst.symm⟩
  · rintro ⟨first, hfirst⟩
    refine ⟨first, ?_, hfirst.symm⟩
    rintro rfl
    -- a name does not begin with a dot
    obtain ⟨c, hc, halnum⟩ := hname.first
    rw [← hfirst] at hc
    cases hc
    exact absurd halnum (by decide)

/-- **A wildcard under another one denotes fewer names.** -/
theorem denotes_wildcard_subset (names : Set String) {t : String} (h : Within t.toList s.toList) :
    denotes names ("*." ++ s) ⊆ denotes names ("*." ++ t) := by
  intro x hx
  obtain ⟨hmem, first, hfirst, htext⟩ := mem_denotes_wildcard.1 hx
  obtain ⟨between, hbetween⟩ := suffix_of_within h
  refine mem_denotes_wildcard.2 ⟨hmem, first ++ between, by simp [hfirst], ?_⟩
  rw [htext, append_assoc, hbetween]

/-- **Wildcards that share a name are nested.** -/
theorem within_of_common {t : String} (hs : x ∈ denotes names ("*." ++ s)) (ht : x ∈ denotes names ("*." ++ t)) :
    Within t.toList s.toList ∨ Within s.toList t.toList := by
  obtain ⟨-, first, -, hfirst⟩ := mem_denotes_wildcard.1 hs
  obtain ⟨-, first', -, hfirst'⟩ := mem_denotes_wildcard.1 ht
  have hsuffix : '.' :: s.toList <:+ x.toList := ⟨first, hfirst.symm⟩
  have hsuffix' : '.' :: t.toList <:+ x.toList := ⟨first', hfirst'.symm⟩
  exact (strict_suffix_total hsuffix' hsuffix).imp within_of_suffix within_of_suffix

/-- The comparison of two wildcards in the code. -/
theorem hasSuffix_wildcards (s t : String) :
    hasSuffix ("*." ++ s) ("." ++ t) = true ↔ Within t.toList s.toList := by
  rw [hasSuffix, isSuffixOf_iff_suffix, toList_wildcard, String.toList_append]
  constructor
  · intro h
    rcases suffix_cons_iff.1 h with heq | h
    · exact absurd (List.cons.inj heq).1 (by decide)
    · exact within_of_suffix h
  · intro h
    exact (suffix_of_within h).trans (suffix_cons _ _)

/-- What is found for two hostnames: their intersection, or that there is none. -/
def Intersects (names : Set String) (r l : String) (found : Option String) : Prop :=
  (found.isSome = true ↔ (denotes names r ∩ denotes names l).Nonempty) ∧
    ∀ m, found = some m → denotes names m = denotes names r ∩ denotes names l

theorem intersects_some {r l m : String} (hne : (denotes names m).Nonempty)
    (h : denotes names m = denotes names r ∩ denotes names l) : Intersects names r l (some m) := by
  refine ⟨⟨fun _ => h ▸ hne, fun _ => rfl⟩, fun m' hm' => ?_⟩
  cases hm'
  exact h

theorem intersects_none {r l : String} (h : ∀ x, x ∈ denotes names r → x ∉ denotes names l) :
    Intersects names r l none := by
  refine ⟨⟨fun hsome => ?_, fun ⟨x, hr, hl⟩ => absurd hl (h x hr)⟩, fun m hm => ?_⟩
  · cases hsome
  · cases hm

variable (hnames : ∀ x, validHostname x = true → hasPrefix x "*." = false → x ∈ names)

include hnames in
theorem denotes_nonempty (hvalid : validHostname h = true) : (denotes names h).Nonempty := by
  by_cases hwild : hasPrefix h "*." = true
  · obtain ⟨s, rfl⟩ := (wildcard_iff h).1 hwild
    obtain ⟨hunder, hconcrete⟩ := validHostname_under hvalid
    refine ⟨"a." ++ s, mem_denotes_wildcard.2 ⟨hnames _ hunder hconcrete, ['a'], by decide, ?_⟩⟩
    rw [String.toList_append]
    rfl
  · rw [Bool.not_eq_true] at hwild
    rw [denotes_concrete (validHostname_ne_empty hvalid) hwild]
    exact Set.singleton_nonempty h

include hnames in
theorem denotes_subset (hvalid : validHostname h = true) : denotes names h ⊆ names := by
  intro x hx
  by_cases hwild : hasPrefix h "*." = true
  · obtain ⟨s, rfl⟩ := (wildcard_iff h).1 hwild
    exact (mem_denotes_wildcard.1 hx).1
  · rw [Bool.not_eq_true] at hwild
    rw [denotes_concrete (validHostname_ne_empty hvalid) hwild, Set.mem_singleton_iff] at hx
    rw [hx]
    exact hnames h hvalid hwild

include hnames in
/-- A concrete name against a wildcard: it is under it, or they share nothing. -/
theorem intersects_concrete (hvalid : validHostname h = true) (hwild : hasPrefix h "*." = false) :
    if hasSuffix h ("." ++ s) then denotes names h = denotes names h ∩ denotes names ("*." ++ s)
    else ∀ x, x ∈ denotes names h → x ∉ denotes names ("*." ++ s) := by
  have hname := ((validHostname_concrete hwild).1 hvalid).2.1
  have hunder := concrete_under_iff (s := s) (hnames h hvalid hwild) hname
  have hsuffix : hasSuffix h ("." ++ s) = true ↔ '.' :: s.toList <:+ h.toList := by
    rw [hasSuffix, isSuffixOf_iff_suffix, String.toList_append]
    rfl
  rw [denotes_concrete (validHostname_ne_empty hvalid) hwild]
  split
  · rename_i hends
    exact (Set.inter_eq_left.2 (Set.singleton_subset_iff.2 (hunder.2 (hsuffix.1 hends)))).symm
  · rename_i hends
    intro x hx hin
    rw [Set.mem_singleton_iff] at hx
    subst hx
    exact hends (hsuffix.2 (hunder.1 hin))

end Denotes

/-- **Hostname intersection is exact.** Among any names that include the valid hostnames, a match is
reported if and only if the route's and the listener's hostname have a name in common, and what
is returned stands for exactly the names they have in common. -/
theorem intersectHostname_exact (names : Set String)
    (hnames : ∀ x, validHostname x = true → hasPrefix x "*." = false → x ∈ names) (r l : String)
    (hr : validHostname r = true) (hl : l = "" ∨ validHostname l = true) :
    Intersects names r l (intersectHostname r l) := by
  have hnonempty := denotes_nonempty hnames hr
  unfold intersectHostname
  by_cases hsame : l = "" ∨ l = r
  · rw [if_pos hsame]
    refine intersects_some hnonempty ?_
    rcases hsame with rfl | rfl
    · rw [denotes_empty, Set.inter_eq_left.2 (denotes_subset hnames hr)]
    · rw [Set.inter_self]
  · rw [if_neg hsame]
    have hl := hl.resolve_left fun h => hsame (.inl h)
    dsimp only
    by_cases hrw : hasPrefix r "*." = true
    · obtain ⟨s, rfl⟩ := (wildcard_iff r).1 hrw
      rw [hrw, tail_wildcard]
      by_cases hlw : hasPrefix l "*." = true
      · -- two wildcards: nested one way, the other way, or disjoint
        obtain ⟨t, rfl⟩ := (wildcard_iff l).1 hlw
        rw [hlw, tail_wildcard]
        simp only [Bool.not_true, Bool.and_false, Bool.false_eq_true, ↓reduceIte, Bool.and_self]
        by_cases hst : hasSuffix ("*." ++ s) ("." ++ t) = true
        · rw [if_pos hst]
          have hsub := denotes_wildcard_subset names ((hasSuffix_wildcards s t).1 hst)
          exact intersects_some hnonempty (Set.inter_eq_left.2 hsub).symm
        · rw [if_neg hst]
          by_cases hts : hasSuffix ("*." ++ t) ("." ++ s) = true
          · rw [if_pos hts]
            have hsub := denotes_wildcard_subset names ((hasSuffix_wildcards t s).1 hts)
            exact intersects_some (denotes_nonempty hnames hl) (Set.inter_eq_right.2 hsub).symm
          · rw [if_neg hts]
            refine intersects_none fun x hx hx' => ?_
            rcases within_of_common hx hx' with h | h
            · exact hst ((hasSuffix_wildcards s t).2 h)
            · exact hts ((hasSuffix_wildcards t s).2 h)
      · rw [Bool.not_eq_true] at hlw
        rw [hlw]
        simp only [Bool.false_and, Bool.not_false, Bool.and_self, Bool.false_eq_true, ↓reduceIte]
        have hcase := intersects_concrete (s := s) hnames hl hlw
        split at hcase
        · rename_i hends
          rw [if_pos hends]
          exact intersects_some (denotes_nonempty hnames hl) (hcase.trans (Set.inter_comm _ _))
        · rename_i hends
          rw [if_neg hends]
          exact intersects_none fun x hx hx' => hcase x hx' hx
    · rw [Bool.not_eq_true] at hrw
      rw [hrw]
      by_cases hlw : hasPrefix l "*." = true
      · obtain ⟨t, rfl⟩ := (wildcard_iff l).1 hlw
        rw [hlw, tail_wildcard]
        simp only [Bool.not_false, Bool.and_self, ↓reduceIte]
        have hcase := intersects_concrete (s := t) hnames hr hrw
        split at hcase
        · rename_i hends
          rw [if_pos hends]
          exact intersects_some hnonempty hcase
        · rename_i hends
          rw [if_neg hends]
          exact intersects_none hcase
      · -- two names that differ
        rw [Bool.not_eq_true] at hlw
        rw [hlw]
        simp only [Bool.false_and, Bool.and_false, Bool.false_eq_true, ↓reduceIte]
        refine intersects_none fun x hx hx' => ?_
        rw [denotes_concrete (validHostname_ne_empty hr) hrw, Set.mem_singleton_iff] at hx
        rw [denotes_concrete (validHostname_ne_empty hl) hlw, Set.mem_singleton_iff] at hx'
        exact hsame (.inr (hx'.symm.trans hx))

/-- A route under a wildcard meets a listener with a deeper one. -/
theorem intersectHostname_exact_nested :
    validHostname "*.example.com" = true ∧ validHostname "*.eu.example.com" = true ∧
      denotes Set.univ "*.eu.example.com" = denotes Set.univ "*.example.com" ∩ denotes
        Set.univ "*.eu.example.com" := by
  have hroute : validHostname "*.example.com" = true := by decide +kernel
  have hlistener : validHostname "*.eu.example.com" = true := by decide +kernel
  have hexact := intersectHostname_exact Set.univ
    (fun _ _ _ => Set.mem_univ _) "*.example.com" "*.eu.example.com" hroute (.inr hlistener)
  exact ⟨hroute, hlistener, hexact.2 _ (by decide +kernel)⟩

end FortigateDns.Source
