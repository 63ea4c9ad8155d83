import FortigateDns.Proof.Isolation

/-!
# Incumbents stay, and exclusion is fair

What follows from the characterization of the targets that survive.
-/

namespace FortigateDns

open Go List

variable {active : GoMap Definition} {candidates candidates' : List Definition} {definition other : Definition}

theorem incumbent_eligible (h : incumbent active candidates definition = true) :
    eligible active candidates definition = true := by
  have hunique : uniquelyKeyed candidates definition = true := (Bool.and_eq_true_iff.1 h).1
  simp [eligible, displaced, h, hunique]

/-- A newcomer that conflicts with an incumbent is displaced. -/
theorem not_eligible_of_conflict (hmem : definition ∈ candidates)
    (h : incumbent active candidates definition = true) (hnew : incumbent active candidates other = false)
    (hconflict : scopesConflict definition other = true) : eligible active candidates other = false := by
  have hdisplaced : displaced active candidates other = true := by
    unfold displaced
    rw [hnew, Bool.not_false, Bool.true_and, any_eq_true]
    exact ⟨definition, hmem, by rw [h, scopesConflict_comm, hconflict]; rfl⟩
  simp [eligible, hdisplaced]

/-- A newcomer does not evict an unchanged writer. -/
theorem incumbent_survives (hmem : definition ∈ candidates) (h : incumbent active candidates definition = true)
    (hothers : ∀ other ∈ candidates, incumbent active candidates other = true → other.key ≠ definition.key →
      scopesConflict definition other = false) : survives active candidates definition = true := by
  unfold survives
  rw [incumbent_eligible h, Bool.true_and, Bool.not_eq_true', ← Bool.not_eq_true, any_eq_true]
  rintro ⟨other, hother, hbad⟩
  simp only [Bool.and_eq_true, bne_iff_ne] at hbad
  obtain ⟨⟨hkey, heligible⟩, hconflict⟩ := hbad
  cases hinc : incumbent active candidates other with
  | true => simp [hothers other hother hinc hkey] at hconflict
  | false => simp [not_eligible_of_conflict hmem h hinc hconflict] at heligible

theorem survives_eligible (h : survives active candidates definition = true) :
    eligible active candidates definition = true := (Bool.and_eq_true_iff.1 h).1

theorem eligible_unique (h : eligible active candidates definition = true) :
    uniquelyKeyed candidates definition = true := (Bool.and_eq_true_iff.1 h).1

theorem survives_no_conflict (h : survives active candidates definition = true) (hmem : other ∈ candidates)
    (hother : eligible active candidates other = true) (hkey : other.key ≠ definition.key) :
    scopesConflict definition other = false := by
  have hnone := (Bool.and_eq_true_iff.1 h).2
  rw [Bool.not_eq_true', ← Bool.not_eq_true, any_eq_true] at hnone
  rw [← Bool.not_eq_true]
  intro hconflict
  exact hnone ⟨other, hmem, by simp [hkey, hother, hconflict]⟩

/-- Keys that occur once are those of different candidates. -/
theorem pairwise_keys (hunique : ∀ d ∈ candidates, uniquelyKeyed candidates' d = true)
    (hsub : candidates.Sublist candidates') : candidates.Pairwise fun a b => a.key ≠ b.key := by
  rw [pairwise_iff_forall_sublist]
  intro a b hpair hkey
  have hcount := (hpair.trans hsub).countP_le (p := fun d : Definition => d.key == a.key)
  have hone : candidates'.countP (fun d : Definition => d.key == a.key) = 1 := by
    have hmem : a ∈ candidates := hpair.subset mem_cons_self
    simpa [uniquelyKeyed] using hunique a hmem
  rw [hone] at hcount
  simp [hkey] at hcount

theorem survivors_keys : (candidates.filter (survives active candidates)).Pairwise fun a b => a.key ≠ b.key :=
  pairwise_keys (fun _ hd => eligible_unique (survives_eligible (mem_filter.1 hd).2)) filter_sublist

/-- No two valid targets claim a common scope. -/
theorem valid_disjoint :
    (candidates.filter (survives active candidates)).Pairwise fun a b => scopesConflict a b = false := by
  refine survivors_keys.imp_of_mem fun {a b} ha hb hkey => ?_
  rw [mem_filter] at ha hb
  exact survives_no_conflict ha.2 hb.1 (survives_eligible hb.2) hkey.symm

theorem candidate_eq_of_key (hunique : uniquelyKeyed candidates definition = true)
    (hmem : definition ∈ candidates) (hother : other ∈ candidates) (hkey : other.key = definition.key) :
    other = definition := by
  obtain ⟨i, rfl⟩ := List.get_of_mem hmem
  obtain ⟨j, rfl⟩ := List.get_of_mem hother
  rw [(uniquelyKeyed_get i).1 hunique j hkey]

/-- Who is excluded conflicts with somebody who is not displaced. -/
theorem excluded_cause (hmem : definition ∈ candidates) (hunique : uniquelyKeyed candidates definition = true)
    (h : survives active candidates definition = false) :
    ∃ other ∈ candidates, other.key ≠ definition.key ∧ scopesConflict definition other = true ∧
      (incumbent active candidates other = true ∨ displaced active candidates other = false) := by
  cases heligible : eligible active candidates definition with
  | false =>
    -- unique and not eligible: an incumbent is in the way
    have hdisplaced : displaced active candidates definition = true := by
      simpa [eligible, hunique] using heligible
    obtain ⟨hnew, hany⟩ := Bool.and_eq_true_iff.1 hdisplaced
    obtain ⟨other, hother, hboth⟩ := any_eq_true.1 hany
    obtain ⟨hinc, hconflict⟩ := Bool.and_eq_true_iff.1 hboth
    refine ⟨other, hother, fun hkey => ?_, hconflict, Or.inl hinc⟩
    rw [candidate_eq_of_key hunique hmem hother hkey] at hinc
    simp [hinc] at hnew
  | true =>
    have hany : (candidates.any fun other =>
        other.key != definition.key && eligible active candidates other && scopesConflict definition other) =
          true := by
      simpa [survives, heligible] using h
    obtain ⟨other, hotherMem, hbad⟩ := any_eq_true.1 hany
    simp only [Bool.and_eq_true, bne_iff_ne] at hbad
    obtain ⟨⟨hkey, hother⟩, hconflict⟩ := hbad
    have hfree : displaced active candidates other = false := by
      simpa using (Bool.and_eq_true_iff.1 hother).2
    exact ⟨other, hotherMem, hkey, hconflict, Or.inr hfree⟩

theorem candidates_any_perm {p : Definition → Bool} (hperm : candidates.Perm candidates') :
    candidates.any p = candidates'.any p := by
  rw [Bool.eq_iff_iff, any_eq_true, any_eq_true]
  simp only [hperm.mem_iff]

theorem uniquelyKeyed_perm (hperm : candidates.Perm candidates') :
    uniquelyKeyed candidates = uniquelyKeyed candidates' := by
  funext d
  unfold uniquelyKeyed
  rw [hperm.countP_eq]

theorem incumbent_perm (hperm : candidates.Perm candidates') :
    incumbent active candidates = incumbent active candidates' := by
  funext d
  unfold incumbent
  rw [uniquelyKeyed_perm hperm]

theorem eligible_perm (hperm : candidates.Perm candidates') :
    eligible active candidates = eligible active candidates' := by
  funext d
  unfold eligible displaced
  rw [uniquelyKeyed_perm hperm, incumbent_perm hperm, candidates_any_perm hperm]

/-- The order of the list plays no part. -/
theorem survives_perm (hperm : candidates.Perm candidates') :
    survives active candidates = survives active candidates' := by
  funext d
  unfold survives
  rw [eligible_perm hperm, candidates_any_perm hperm]

/-- **Isolation is fair**: to incumbents, to each other, in its causes and in its order. -/
theorem fair_isolation (parseURL : String → Option ParsedURL) (definitions : List Definition)
    (active : GoMap Definition) :
    let candidates := validCandidates parseURL definitions
    let set := isolateDefinitionsWithActive parseURL definitions active
    (∀ d ∈ definitions, ∀ c, validateDefinition parseURL d = (c, none) → uniquelyKeyed candidates c = true →
      sameActiveTarget active c = true →
      (∀ other ∈ candidates, uniquelyKeyed candidates other = true → sameActiveTarget active other = true →
        other.key ≠ c.key → scopesConflict c other = false) → c ∈ set.valid) ∧
    set.valid.Pairwise (fun a b => scopesConflict a b = false) ∧
    (∀ d ∈ definitions, ∀ c, validateDefinition parseURL d = (c, none) → uniquelyKeyed candidates c = true →
      c ∉ set.valid → ∃ other ∈ candidates, other.key ≠ c.key ∧ scopesConflict c other = true ∧
        (incumbent active candidates other = true ∨ displaced active candidates other = false)) ∧
    ∀ definitions', definitions.Perm definitions' →
      set.valid.Perm (isolateDefinitionsWithActive parseURL definitions' active).valid ∧
      ∀ key, (set.invalid.lookup key).map InvalidTarget.reason =
        ((isolateDefinitionsWithActive parseURL definitions' active).invalid.lookup key).map
          InvalidTarget.reason := by
  intro candidates set
  have hvalid : set.valid = candidates.filter (survives active candidates) :=
    isolate_valid parseURL definitions active
  refine ⟨?_, ?_, ?_, ?_⟩
  · intro d hd c hc hunique hactive hothers
    have hmem : c ∈ candidates := mem_validCandidates.2 ⟨d, hd, hc⟩
    have hinc : incumbent active candidates c = true := by simp [incumbent, hunique, hactive]
    rw [hvalid, mem_filter]
    refine ⟨hmem, incumbent_survives hmem hinc fun other hother hotherInc hkey => ?_⟩
    obtain ⟨huniqueOther, hactiveOther⟩ := Bool.and_eq_true_iff.1 hotherInc
    exact hothers other hother huniqueOther hactiveOther hkey
  · rw [hvalid]
    exact valid_disjoint
  · intro d hd c hc hunique hnot
    have hmem : c ∈ candidates := mem_validCandidates.2 ⟨d, hd, hc⟩
    refine excluded_cause hmem hunique ?_
    rw [hvalid, mem_filter, not_and, Bool.not_eq_true] at hnot
    exact hnot hmem
  · intro definitions' hperm
    have hcandidates : candidates.Perm (validCandidates parseURL definitions') := hperm.filterMap _
    have hrejected : (rejectedDefinitions parseURL definitions).Perm
      (rejectedDefinitions parseURL definitions') :=
      hperm.filterMap _
    constructor
    · rw [hvalid, isolate_valid, ← survives_perm hcandidates]
      exact hcandidates.filter _
    · intro key
      have hany : ∀ p : Definition × TargetError → Bool,
          (rejectedDefinitions parseURL definitions).any p =
            (rejectedDefinitions parseURL definitions').any p := by
        intro p
        rw [Bool.eq_iff_iff, any_eq_true, any_eq_true]
        simp only [hrejected.mem_iff]
      rw [isolate_reason, isolate_reason, ← survives_perm hcandidates, ← candidates_any_perm hcandidates, ← hany]

/-- An incumbent, a newcomer in its scope, and a target of another zone. -/
theorem fair_isolation_incumbent :
    let parseURL : String → Option ParsedURL := fun _ => some ⟨"https", "fw", false, "", ""⟩
    let incumbent : Definition :=
      { targetNamespace := "dns", name := "edge", uid := "u1", generation := 3, url := "https://fw",
        zone := "example.com", apiTokenSecretRef := some ⟨"token", "key", none⟩,
        ownershipMode := .known .exclusive, controllerID := "c" }
    let newcomer : Definition := { incumbent with name := "apps", uid := "u2", zone := "apps.example.com" }
    let other : Definition := { incumbent with name := "other", uid := "u3", zone := "example.net" }
    let active : GoMap Definition := (∅ : GoMap Definition).set "dns/edge" incumbent
    let definitions := [incumbent, newcomer, other]
    let candidates := validCandidates parseURL definitions
    let set := isolateDefinitionsWithActive parseURL definitions active
    (validateDefinition parseURL incumbent).1 ∈ set.valid ∧
    (∃ rival ∈ candidates, rival.key ≠ (validateDefinition parseURL newcomer).1.key ∧
      scopesConflict (validateDefinition parseURL newcomer).1 rival = true ∧
      (FortigateDns.incumbent active candidates rival = true ∨ displaced active candidates rival = false)) ∧
    set.valid.Perm (isolateDefinitionsWithActive parseURL [newcomer, incumbent, other] active).valid := by
  intro parseURL incumbent newcomer other active definitions candidates set
  have hfair := fair_isolation parseURL definitions active
  refine ⟨?_, ?_, (hfair.2.2.2 _ (List.Perm.swap _ _ _)).1⟩
  · exact hfair.1 incumbent (by decide +kernel) _ (by decide +kernel) (by decide +kernel) (by decide +kernel)
      (by decide +kernel)
  · exact hfair.2.2.1 newcomer (by decide +kernel) _ (by decide +kernel) (by decide +kernel) (by decide +kernel)

end FortigateDns
