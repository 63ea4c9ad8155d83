import FortigateDns.Proof.Isolation
import FortigateDns.Proof.ValidateAll

/-!
# Isolated targets are validated once more

`RuntimeManager.Sync` calls `ValidateAll` on the targets that isolation found valid. The second
validation normalizes the zones again, and it tells targets apart by another text than their key.
-/

namespace FortigateDns

open Go List

variable {parseURL : String → Option ParsedURL}

/-- The targets that survive isolation. -/
def survivors (parseURL : String → Option ParsedURL) (definitions : List Definition) (active : GoMap Definition) :
    List Definition :=
  (validCandidates parseURL definitions).filter (survives active (validCandidates parseURL definitions))

/-- Every definition is among the valid ones, or has an entry under its key. -/
theorem isolate_represents (definitions : List Definition) (active : GoMap Definition) {d : Definition}
    (hd : d ∈ definitions) :
    let set := isolateDefinitionsWithActive parseURL definitions active
    (validateDefinition parseURL d).1 ∈ set.valid ∨
      (set.invalid.lookup (validateDefinition parseURL d).1.key).isSome = true := by
  intro set
  have hreason := isolate_reason parseURL definitions active (validateDefinition parseURL d).1.key
  have hsome : ∀ reason, (set.invalid.lookup (validateDefinition parseURL d).1.key).map
    InvalidTarget.reason = some reason →
      (set.invalid.lookup (validateDefinition parseURL d).1.key).isSome = true := by
    intro reason h
    rw [← Option.isSome_map, h]
    rfl
  rcases hvalidate : validateDefinition parseURL d with ⟨c, _ | err⟩
  · have hmem : c ∈ validCandidates parseURL definitions := mem_validCandidates.2 ⟨d, hd, hvalidate⟩
    rw [hvalidate] at hreason hsome
    cases hsurvives : survives active (validCandidates parseURL definitions) c with
    | true =>
      left
      rw [isolate_valid, mem_filter]
      exact ⟨hmem, hsurvives⟩
    | false =>
      right
      refine hsome .conflict (hreason.trans (if_pos ?_))
      exact any_eq_true.2 ⟨c, hmem, by simp [hsurvives]⟩
  · right
    have hmem : (c, err) ∈ rejectedDefinitions parseURL definitions :=
      mem_filterMap.2 ⟨d, hd, by rw [hvalidate]⟩
    have hany : (rejectedDefinitions parseURL definitions).any (fun entry => entry.1.key == c.key) = true :=
      any_eq_true.2 ⟨_, hmem, by simp⟩
    rw [hvalidate] at hreason hsome
    -- a candidate with the same key may have overwritten the entry
    by_cases hconflict : ((validCandidates parseURL definitions).any fun candidate =>
        !survives active (validCandidates parseURL definitions) candidate && candidate.key == c.key) = true
    · exact hsome .conflict (hreason.trans (if_pos hconflict))
    · exact hsome .invalid (hreason.trans ((if_neg hconflict).trans (if_pos hany)))

/-- No two candidates that survive have a key in common or conflict. -/
theorem pairwise_survivors (parseURL : String → Option ParsedURL) (definitions : List Definition)
    (active : GoMap Definition) :
    (survivors parseURL definitions active).Pairwise fun a b => a.key ≠ b.key ∧ scopesConflict a b = false := by
  unfold survivors
  generalize validCandidates parseURL definitions = candidates
  have hkeys : (candidates.filter (survives active candidates)).Pairwise fun a b => a.key ≠ b.key := by
    rw [← pairwise_map (R := (· ≠ ·)) (f := Definition.key), ← nodup_iff_pairwise_ne,
      nodup_iff_count_le_one]
    intro key
    rw [count_eq_countP, countP_map]
    by_cases hmem : key ∈ (candidates.filter (survives active candidates)).map Definition.key
    · obtain ⟨c, hc, rfl⟩ := mem_map.1 hmem
      have hunique : uniquelyKeyed candidates c = true := by
        have hc := (mem_filter.1 hc).2
        simp only [survives, eligible, Bool.and_eq_true] at hc
        exact hc.1.1
      rw [uniquelyKeyed, beq_iff_eq] at hunique
      exact filter_sublist.countP_le.trans hunique.le
    · rw [countP_eq_zero.2]
      · exact Nat.zero_le _
      · intro c hc hkey
        exact hmem (mem_map.2 ⟨c, hc, beq_iff_eq.1 hkey⟩)
  refine hkeys.imp_of_mem fun {a b} ha hb hkey => ⟨hkey, ?_⟩
  obtain ⟨hmem, hsurvives⟩ := mem_filter.1 hb
  have ha := (mem_filter.1 ha).2
  simp only [survives, Bool.and_eq_true, Bool.not_eq_true', any_eq_false] at ha hsurvives
  simpa [Ne.symm hkey, hsurvives.1] using ha.2 b hmem

/-- **A second normalization leaves the zone alone**, and the namespace does not begin with a slash. -/
structure StableScope (d : Definition) : Prop where
  zone : normalizeDNSName (normalizeDNSName d.zone) = normalizeDNSName d.zone
  scope : (toLower (trimSpace d.targetNamespace)).toList.head? ≠ some '/'

/-- The parts of a valid definition that the second validation compares. -/
theorem validated_parts {d c : Definition} (h : validateDefinition parseURL d = (c, none)) :
    c.zone = normalizeDNSName d.zone ∧ c.targetNamespace = toLower (trimSpace d.targetNamespace) ∧
      trimSpace c.targetNamespace = c.targetNamespace ∧ trimSpace c.name = c.name := by
  obtain ⟨-, hchecked⟩ := validateDefinition_none_iff.1 h
  rw [checkDefinition_ok hchecked]
  simp only [Definition.withDefaults, Definition.normalize, trimSpace_toLower, trimSpace_trimSpace, and_self]

/-- The two texts that tell targets apart agree unless a namespace begins with a slash. -/
theorem key_eq_of_fullName {a b : Definition} (ha : trimSpace a.targetNamespace = a.targetNamespace)
    (hb : trimSpace b.targetNamespace = b.targetNamespace) (hslash : a.targetNamespace.toList.head? ≠ some '/')
    (hslash' : b.targetNamespace.toList.head? ≠ some '/') (hna : trimSpace a.name = a.name)
    (hnb : trimSpace b.name = b.name) (h : a.fullName = b.fullName) : a.key = b.key := by
  have hempty : ∀ {x y : Definition}, x.targetNamespace = "" → y.targetNamespace.toList.head? ≠ some '/' →
      x.fullName = y.fullName → y.targetNamespace = "" := by
    intro x y hx hy hxy
    have hlist := congrArg String.toList hxy
    simp only [Definition.fullName, hx, String.toList_append] at hlist
    rw [← String.toList_eq_nil_iff]
    cases hy' : y.targetNamespace.toList with
    | nil => rfl
    | cons c rest =>
      rw [hy'] at hlist hy
      -- the other text begins with a slash
      simp at hlist hy
      exact absurd hlist.1.symm hy
  unfold Definition.key
  rw [ha, hb, hna, hnb]
  by_cases hnamespace : a.targetNamespace = ""
  · have hnamespace' := hempty hnamespace hslash' h
    rw [if_pos hnamespace, if_pos hnamespace']
    rwa [Definition.fullName, Definition.fullName, hnamespace, hnamespace', String.append_right_inj] at h
  · have hnamespace' : b.targetNamespace ≠ "" := fun hb' => hnamespace (hempty hb' hslash h.symm)
    rwa [if_neg hnamespace, if_neg hnamespace']

/-- A target with nothing special but its zone. -/
def plainTarget (name zone : String) : Definition :=
  { targetNamespace := "dns", name := name, url := "https://fw", zone := zone,
    apiTokenSecretRef := some ⟨"token", "key", none⟩, ownershipMode := .known .exclusive, controllerID := "c" }

/-- Every text is the same URL. -/
def anyURL (_ : String) : Option ParsedURL := some ⟨"https", "fw", false, "", ""⟩

end FortigateDns
