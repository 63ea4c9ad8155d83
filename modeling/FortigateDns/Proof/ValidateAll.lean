import FortigateDns.Proof.TargetNames

/-!
# What validation accepts

* `revalidate`: **a valid definition is valid again**, and stays as it is, if normalizing its zone
  again does not change it.
-/

namespace FortigateDns

open Go List

variable {parseURL : String → Option ParsedURL} {d c : Definition}

theorem unit_bind_ok {x : Except TargetError Unit} {α : Type} {k : Unit → Except TargetError α} {a : α} :
    (x >>= k) = .ok a ↔ x = .ok () ∧ k () = .ok a := by
  cases x with
  | error err => exact ⟨nofun, fun h => nomatch h.1⟩
  | ok _ => exact ⟨fun h => ⟨rfl, h⟩, fun h => h.2⟩

/-- The defaults of the settings that may be left out. -/
def Definition.withDefaults (definition : Definition) : Definition :=
  { definition with
    cleanupPolicy := definition.cleanupPolicy.orDefault .delete
    approvalMode := definition.approvalMode.orDefault .disabled }

theorem Setting.orDefault_orDefault {α : Type} (setting : Setting α) (value : α) :
    (setting.orDefault value).orDefault value = setting.orDefault value := by
  cases setting <;> rfl

/-- A definition that passes is given its defaults. -/
theorem checkDefinition_ok (h : checkDefinition parseURL d = .ok c) : c = d.withDefaults := by
  unfold checkDefinition at h
  simp only [unit_bind_ok] at h
  obtain ⟨-, -, -, -, -, -, -, -, -, -, -, -, -, -, -, hok⟩ := h
  exact (Except.ok.inj hok).symm

/-- The checks read the settings with their defaults. -/
theorem checkDefinition_withDefaults : checkDefinition parseURL d.withDefaults = checkDefinition parseURL d := by
  unfold checkDefinition Definition.withDefaults
  simp only [Setting.orDefault_orDefault]
  rfl

/-- What `validateDefinition` checks. -/
theorem validateDefinition_none_iff :
    validateDefinition parseURL d = (c, none) ↔
      (∀ filter ∈ d.domainFilters, validateDomainFilter filter = true) ∧
        checkDefinition parseURL d.normalize = .ok c := by
  unfold validateDefinition
  cases hfind : d.domainFilters.find? fun filter => !validateDomainFilter filter with
  | some filter =>
    have hbad := find?_some hfind
    refine ⟨nofun, fun h => ?_⟩
    simp [h.1 filter (mem_of_find?_eq_some hfind)] at hbad
  | none =>
    have hall : ∀ filter ∈ d.domainFilters, validateDomainFilter filter = true := by
      simpa using find?_eq_none.1 hfind
    simp only [eq_true hall, true_and]
    generalize d.normalize = n
    cases checkDefinition parseURL n with
    | error err => exact ⟨nofun, nofun⟩
    | ok checked => simp

/-- **What is valid is valid again** if its zone stays. The names and the filters stay in any case. -/
theorem revalidate (h : validateDefinition parseURL d = (c, none)) (hzone : normalizeDNSName c.zone = c.zone) :
    validateDefinition parseURL c = (c, none) := by
  obtain ⟨hfilters, hchecked⟩ := validateDefinition_none_iff.1 h
  have hagain : ∀ filter ∈ d.normalize.domainFilters, validateDomainFilter filter = true := by
    intro filter hfilter
    obtain ⟨value, hvalue, rfl⟩ := mem_normalizeSuffixes hfilter
    exact validateDomainFilter_normalized (hfilters value hvalue)
  obtain rfl := checkDefinition_ok hchecked
  have hnormal : d.normalize.withDefaults.normalize = d.normalize.withDefaults := by
    simp only [Definition.withDefaults, Definition.normalize] at hzone ⊢
    simp only [lowerTrim_idem, normalizeValues_idem, normalizeSuffixes_idem hfilters, hzone]
  refine validateDefinition_none_iff.2 ⟨hagain, ?_⟩
  rw [hnormal, checkDefinition_withDefaults]
  exact hchecked

/-- The text that tells definitions apart in `ValidateAll`. -/
def Definition.fullName (definition : Definition) : String := definition.targetNamespace ++ "/" ++ definition.name

theorem validateEach_ok_iff {seen : List String} {definitions checked : List Definition} :
    validateEach parseURL seen definitions = .ok checked ↔
      List.Forall₂ (fun d c => validateDefinition parseURL d = (c, none)) definitions checked ∧
        (checked.map Definition.fullName).Nodup ∧ ∀ c ∈ checked, c.fullName ∉ seen := by
  induction definitions generalizing seen checked with
  | nil =>
    unfold validateEach
    constructor
    · intro h
      obtain rfl := Except.ok.inj h
      simp
    · rintro ⟨h, -⟩
      cases h
      rfl
  | cons d definitions ih =>
    unfold validateEach
    rcases hvalidate : validateDefinition parseURL d with ⟨c, _ | err⟩
    · simp only
      split
      · rename_i hdup
        refine ⟨nofun, ?_⟩
        rintro ⟨hall, -, hfresh⟩
        cases hall with
        | cons hc _ =>
          rw [hvalidate] at hc
          obtain rfl := (Prod.mk.inj hc).1
          exact absurd hdup (hfresh c mem_cons_self)
      · rename_i hfresh
        constructor
        · intro h
          cases hrest : validateEach parseURL ((c.targetNamespace ++ "/" ++ c.name) :: seen) definitions with
          | error err =>
            rw [hrest] at h
            cases h
          | ok rest =>
            rw [hrest] at h
            obtain rfl := Except.ok.inj h
            obtain ⟨hall, hnodup, hseen⟩ := ih.1 hrest
            refine ⟨.cons hvalidate hall, ?_, ?_⟩
            · rw [map_cons, nodup_cons]
              refine ⟨fun hmem => ?_, hnodup⟩
              obtain ⟨other, hother, hname⟩ := mem_map.1 hmem
              exact hseen other hother (by rw [hname]; exact mem_cons_self)
            · intro other hother
              rcases mem_cons.1 hother with rfl | hother
              · exact hfresh
              · exact fun hmem => hseen other hother (mem_cons_of_mem _ hmem)
        · rintro ⟨hall, hnodup, hseen⟩
          cases hall with
          | cons hc hall =>
            rename_i c' rest
            rw [hvalidate] at hc
            obtain rfl := (Prod.mk.inj hc).1
            rw [map_cons, nodup_cons] at hnodup
            have hrest : validateEach parseURL ((c.targetNamespace ++ "/" ++ c.name) :: seen) definitions =
              .ok rest := by
              refine ih.2 ⟨hall, hnodup.2, fun other hother hmem => ?_⟩
              rcases mem_cons.1 hmem with heq | hmem
              · exact hnodup.1 (mem_map.2 ⟨other, hother, heq⟩)
              · exact hseen other (mem_cons_of_mem _ hother) hmem
            rw [hrest]
            rfl
    · refine ⟨nofun, ?_⟩
      rintro ⟨hall, -⟩
      cases hall with
      | cons hc _ =>
        rw [hvalidate] at hc
        cases hc

theorem firstOverlap_none_iff {definitions : List Definition} :
    firstOverlap definitions = none ↔ definitions.Pairwise fun a b => scopesConflict a b = false := by
  induction definitions with
  | nil => simp [firstOverlap]
  | cons d definitions ih =>
    unfold firstOverlap
    rw [pairwise_cons]
    cases hfind : definitions.find? (scopesConflict d) with
    | none =>
      have hnone : ∀ other ∈ definitions, scopesConflict d other = false := by simpa using find?_eq_none.1 hfind
      simp only [ih]
      exact ⟨fun h => ⟨hnone, h⟩, fun h => h.2⟩
    | some other =>
      have hconflict := find?_some hfind
      refine ⟨nofun, fun h => ?_⟩
      simp [h.1 other (mem_of_find?_eq_some hfind)] at hconflict

/-- **`ValidateAll` accepts a list** when every definition is valid, no two have a name in common,
and no two claim a common scope. -/
theorem validateAll_ok_iff {definitions checked : List Definition} :
    validateAll parseURL definitions = .ok checked ↔
      List.Forall₂ (fun d c => validateDefinition parseURL d = (c, none)) definitions checked ∧
        (checked.map Definition.fullName).Nodup ∧ checked.Pairwise fun a b => scopesConflict a b = false := by
  have hall : ∀ {checked}, validateEach parseURL [] definitions = .ok checked ↔
      List.Forall₂ (fun d c => validateDefinition parseURL d = (c, none)) definitions checked ∧
        (checked.map Definition.fullName).Nodup := by
    intro checked
    rw [validateEach_ok_iff]
    simp
  rw [← and_assoc, ← hall, ← firstOverlap_none_iff]
  unfold validateAll
  cases heach : validateEach parseURL [] definitions with
  | error err => exact ⟨nofun, fun h => nomatch h.1⟩
  | ok result =>
    dsimp only [bind, Except.bind]
    cases hoverlap : firstOverlap result with
    | none =>
      constructor
      · intro h
        obtain rfl := Except.ok.inj h
        exact ⟨rfl, hoverlap⟩
      · rintro ⟨h, -⟩
        exact h
    | some pair =>
      refine ⟨nofun, ?_⟩
      rintro ⟨h, hnone⟩
      obtain rfl := Except.ok.inj h
      rw [hoverlap] at hnone
      cases hnone

end FortigateDns
