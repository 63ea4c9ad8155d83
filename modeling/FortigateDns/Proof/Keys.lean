import FortigateDns.Spec.Plan

/-!
# Record keys of well-formed endpoints

The planner groups endpoints by joined strings. For a well-formed endpoint the three keys
are injective in the fields they join: `key_eq_iff`, `logicalKey_eq_iff` and `group_eq_iff`.
So a row key determines its logical record and its DNS owner name.
-/

namespace FortigateDns

open Go List

variable {e f : Endpoint}

theorem Endpoint.WellFormed.key_eq (h : e.WellFormed) :
    e.key = join "|" ([e.zone, e.dnsName, e.recordType] ++ e.targets) := by
  obtain ⟨t, ht⟩ := length_eq_one_iff.1 h.oneTarget
  unfold Endpoint.key
  simp only [h.fixed, ht]

theorem Endpoint.WellFormed.logicalKey_eq (h : e.WellFormed) :
    e.logicalKey = join "|" [e.zone, e.dnsName, e.recordType] := by
  simp only [Endpoint.logicalKey, h.fixed]

theorem Endpoint.WellFormed.group_eq (h : e.WellFormed) : e.mutationGroupKey = join "|" [e.zone, e.dnsName] := by
  simp only [Endpoint.mutationGroupKey, h.fixed]

theorem key_eq_iff (he : e.WellFormed) (hf : f.WellFormed) :
    e.key = f.key ↔ e.zone = f.zone ∧ e.dnsName = f.dnsName ∧ e.recordType = f.recordType ∧
      e.targets = f.targets := by
  rw [he.key_eq, hf.key_eq]
  constructor
  · intro h
    have := join_inj (c := '|') rfl (by simp) (by simp) ?_ ?_ h
    · simpa using this
    · intro s hs
      simp only [cons_append, nil_append, mem_cons] at hs
      rcases hs with rfl | rfl | rfl | hs
      exacts [he.barZone, he.barName, he.barType, he.barTarget s hs]
    · intro s hs
      simp only [cons_append, nil_append, mem_cons] at hs
      rcases hs with rfl | rfl | rfl | hs
      exacts [hf.barZone, hf.barName, hf.barType, hf.barTarget s hs]
  · rintro ⟨h1, h2, h3, h4⟩; rw [h1, h2, h3, h4]

theorem logicalKey_eq_iff (he : e.WellFormed) (hf : f.WellFormed) :
    e.logicalKey = f.logicalKey ↔ e.zone = f.zone ∧ e.dnsName = f.dnsName ∧ e.recordType = f.recordType := by
  rw [he.logicalKey_eq, hf.logicalKey_eq]
  constructor
  · intro h
    have := join_inj (c := '|') rfl (by simp) (by simp)
      (by simp only [mem_cons, not_mem_nil, or_false]; rintro s (rfl | rfl | rfl)
          exacts [he.barZone, he.barName, he.barType])
      (by simp only [mem_cons, not_mem_nil, or_false]; rintro s (rfl | rfl | rfl)
          exacts [hf.barZone, hf.barName, hf.barType]) h
    simpa using this
  · rintro ⟨h1, h2, h3⟩; rw [h1, h2, h3]

theorem group_eq_iff (he : e.WellFormed) (hf : f.WellFormed) :
    e.mutationGroupKey = f.mutationGroupKey ↔ e.zone = f.zone ∧ e.dnsName = f.dnsName := by
  rw [he.group_eq, hf.group_eq]
  constructor
  · intro h
    have := join_inj (c := '|') rfl (by simp) (by simp)
      (by simp only [mem_cons, not_mem_nil, or_false]; rintro s (rfl | rfl)
          exacts [he.barZone, he.barName])
      (by simp only [mem_cons, not_mem_nil, or_false]; rintro s (rfl | rfl)
          exacts [hf.barZone, hf.barName]) h
    simpa using this
  · rintro ⟨h1, h2⟩; rw [h1, h2]

/-- A row key determines the logical record. -/
theorem logicalKey_of_key (he : e.WellFormed) (hf : f.WellFormed) (h : e.key = f.key) :
    e.logicalKey = f.logicalKey := by
  obtain ⟨h1, h2, h3, -⟩ := (key_eq_iff he hf).1 h
  exact (logicalKey_eq_iff he hf).2 ⟨h1, h2, h3⟩

/-- A logical record determines the DNS owner name. -/
theorem group_of_logicalKey (he : e.WellFormed) (hf : f.WellFormed) (h : e.logicalKey = f.logicalKey) :
    e.mutationGroupKey = f.mutationGroupKey := by
  obtain ⟨h1, h2, -⟩ := (logicalKey_eq_iff he hf).1 h
  exact (group_eq_iff he hf).2 ⟨h1, h2⟩

theorem group_of_key (he : e.WellFormed) (hf : f.WellFormed) (h : e.key = f.key) :
    e.mutationGroupKey = f.mutationGroupKey :=
  group_of_logicalKey he hf (logicalKey_of_key he hf h)

/-- At one DNS owner name a logical record is a record type. -/
theorem logicalKey_iff_type (he : e.WellFormed) (hf : f.WellFormed)
    (hg : e.mutationGroupKey = f.mutationGroupKey) :
    e.logicalKey = f.logicalKey ↔ e.recordType = f.recordType := by
  rw [logicalKey_eq_iff he hf]
  obtain ⟨h1, h2⟩ := (group_eq_iff he hf).1 hg
  simp [h1, h2]

theorem equalRecord_iff (he : e.WellFormed) (hf : f.WellFormed) :
    e.equalRecord f = true ↔ e.dnsName = f.dnsName ∧ e.recordType = f.recordType ∧ e.ttl = f.ttl ∧
      e.disabled = f.disabled ∧ e.targets = f.targets := by
  unfold Endpoint.equalRecord
  simp only [he.fixed, hf.fixed, Bool.and_eq_true, beq_iff_eq]
  tauto

/-- Normalizing looks at none of the fields a row keeps besides its record. -/
theorem WellFormed.of_record (he : e.WellFormed) (h1 : f.dnsName = e.dnsName) (h2 : f.recordType = e.recordType)
    (h3 : f.targets = e.targets) (h4 : f.zone = e.zone) : f.WellFormed := by
  have hn := he.fixed
  unfold Endpoint.normalize at hn
  have hn1 := congrArg Endpoint.dnsName hn
  have hn2 := congrArg Endpoint.recordType hn
  have hn3 := congrArg Endpoint.targets hn
  have hn4 := congrArg Endpoint.zone hn
  simp only at hn1 hn2 hn3 hn4
  refine ⟨?_, h1 ▸ he.name, h2 ▸ he.type, h3 ▸ he.oneTarget, h4 ▸ he.barZone, h1 ▸ he.barName,
    h2 ▸ he.barType, h3 ▸ he.barTarget⟩
  unfold Endpoint.normalize
  rw [h1, h2, h3, h4, hn1, hn2, hn3, hn4]
  cases f; simp_all

end FortigateDns
