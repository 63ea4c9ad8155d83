import FortigateDns.Spec.Runner

/-!
# The cleanup scope dominates every destructive operation

For arbitrary endpoints and rows, whatever their form: an operation of a plan that changes a row is
about an owned row of the table, and each delete, deactivate and replace is about a row inside the
cleanup scope (`plan_admitted`), because every pass of the planner keeps three things: a conflict
changes no row, a candidate for cleanup is an owned row in the scope, and so is the row of a
replacement. The passes after the planner only drop operations and add conflicts (`enforce_inScope`,
`guardCleanup_sublist`), and the guard bounds what is left (`guardCleanup_cap`,
`guardCleanup_refused`). `cleanup_gates` puts the gates together for the operations that `Prepare`
returns.
-/

namespace FortigateDns

open Go GoMap List Option

variable {rt : Runtime} {desired current rows : List Endpoint} {ownerID : String} {cleanup : CleanupPolicy}
variable {allowed : Endpoint → Bool} {op : Operation} {conflicts replacements : GoMap Operation} {c : Endpoint}
variable {blocked : List String} {st : PairState}

/-- A destructive operation is about a row inside the scope. -/
def InScope (allowed : Endpoint → Bool) (op : Operation) : Prop :=
  op.type.destroysRow = true → allowed op.current = true

theorem inScope_of_conflict (h : op.type = .conflict) : InScope allowed op := by
  intro hd
  rw [h] at hd
  simp [OperationType.destroysRow] at hd

/-- An owned row of the table. -/
structure OwnedRow (rows : List Endpoint) (ownerID : String) (c : Endpoint) : Prop where
  mem : c ∈ rows
  owned : ownedBy c ownerID = true

/-- An operation changes owned rows only, and destroys them only inside the scope. -/
structure Admitted (rows : List Endpoint) (ownerID : String) (allowed : Endpoint → Bool)
    (op : Operation) : Prop where
  row : op.type.mutatesRow = true → OwnedRow rows ownerID op.current
  scope : InScope allowed op

/-- An owned row that may be cleaned up. -/
structure Candidate (rows : List Endpoint) (ownerID : String) (allowed : Endpoint → Bool)
    (c : Endpoint) : Prop extends
    OwnedRow rows ownerID c where
  scope : allowed c = true

theorem admitted_of_no_change (h : op.type.mutatesRow = false) : Admitted rows ownerID allowed op := by
  constructor
  · intro hm
    rw [h] at hm
    cases hm
  · intro hd
    cases ht : op.type <;> simp [ht, OperationType.mutatesRow, OperationType.destroysRow] at h hd

theorem admitted_of_candidate (h : Candidate rows ownerID allowed op.current) :
    Admitted rows ownerID allowed op :=
  ⟨fun _ => h.toOwnedRow, fun _ => h.scope⟩

/-- The owned rows of a key, a logical record or a name are owned rows of the table. -/
theorem ownedRow_of_partition {f : Endpoint → String} {key : String}
    (h : c ∈ (partitionOwned ((groupBy f rows).slice key) ownerID).1) : OwnedRow rows ownerID c := by
  rw [slice_groupBy] at h
  obtain ⟨hmem, howned⟩ := mem_filter.1 ((perm_insertionSort _ _).mem_iff.1 h)
  exact ⟨(mem_filter.1 hmem).1, howned⟩

theorem desiredSetConflict_type {endpoints : List Endpoint} (h : desiredSetConflict endpoints = some op) :
    op.type = .conflict := by
  unfold desiredSetConflict at h
  split at h
  · rw [← some.inj h]
  · split at h
    · rw [← some.inj h]
    · simp at h

theorem desiredSetConflicts_type (m : GoMap (List Endpoint)) :
    ForallValues (fun op => op.type = .conflict) (desiredSetConflicts rt m) := by
  unfold desiredSetConflicts
  refine List.foldlRecOn _ _ (forallValues_empty _) fun m hm p _ => ?_
  cases h : desiredSetConflict p.2 with
  | none => exact hm
  | some op => exact hm.set p.1 (desiredSetConflict_type h)

theorem unownedConflicts_type (desiredByKey : GoMap Endpoint) (currentByGroup : GoMap (List Endpoint))
    (h : ForallValues (fun op => op.type = .conflict) conflicts) :
    ForallValues (fun op => op.type = .conflict)
      (unownedConflicts rt desiredByKey currentByGroup ownerID conflicts) := by
  unfold unownedConflicts
  refine List.foldlRecOn _ _ h fun m hm e _ => ?_
  unfold unownedConflictStep
  simp only
  split
  · exact hm
  · split
    · exact hm.set _ rfl
    · split
      · exact hm.set _ rfl
      · exact hm

/-- A CNAME transition is a conflict, or the replacement of the one owned row, which is in the scope. -/
theorem cnameTransition_type {D C L : List Endpoint}
    (h : cnameTransition D C L ownerID cleanup allowed = some op) :
    op.type = .conflict ∨
      op.type = .replace ∧ op.current ∈ (partitionOwned C ownerID).1 ∧ allowed op.current = true := by
  unfold cnameTransition at h
  simp only at h
  split at h
  · simp at h
  · split at h
    · left; rw [← some.inj h]
    · split at h
      · rename_i hrep
        right
        obtain ⟨c, hc⟩ := length_eq_one_iff.1 hrep.2.1
        rw [← some.inj h]
        exact ⟨rfl, by simp [hc], hrep.2.2.2.1⟩
      · left; rw [← some.inj h]

theorem recordTransition_admitted {st : GoMap Operation × GoMap Operation} {g : String} {t : Option Operation}
    (hc : ForallValues (fun op => op.type = .conflict) st.1)
    (hr : ForallValues (Admitted rows ownerID allowed) st.2)
    (ht : ∀ op, t = some op → op.type = .conflict ∨ op.type = .replace ∧ Admitted rows ownerID allowed op) :
    ForallValues (fun op => op.type = .conflict) (recordTransition st g t).1 ∧
      ForallValues (Admitted rows ownerID allowed) (recordTransition st g t).2 := by
  unfold recordTransition
  split
  · exact ⟨hc, hr⟩
  · cases t with
    | none => exact ⟨hc, hr⟩
    | some op =>
      simp only
      split
      · rename_i htype
        refine ⟨hc, hr.set g ?_⟩
        rcases ht op rfl with h | h
        · rw [h] at htype; simp at htype
        · exact h.2
      · rename_i htype
        refine ⟨hc.set g ?_, hr⟩
        rcases ht op rfl with h | h
        · exact h
        · exact absurd h.1 htype

theorem cnameTransitions_admitted (m₁ m₂ : GoMap (List Endpoint))
    (h : ForallValues (fun op => op.type = .conflict) conflicts) :
    let r := cnameTransitions rt m₁ (groupBy Endpoint.mutationGroupKey rows) m₂ ownerID cleanup allowed conflicts
    ForallValues (fun op => op.type = .conflict) r.1 ∧ ForallValues (Admitted rows ownerID allowed) r.2 := by
  unfold cnameTransitions
  refine List.foldlRecOn (motive := fun st : GoMap Operation × GoMap Operation =>
    ForallValues (fun op => op.type = .conflict) st.1 ∧ ForallValues (Admitted rows ownerID allowed) st.2) _
      _ ?_ ?_
  · exact ⟨h, forallValues_empty _⟩
  · intro st hst p _
    refine recordTransition_admitted hst.1 hst.2 fun op hop => (cnameTransition_type hop).imp_right ?_
    rintro ⟨htype, hrow, hscope⟩
    exact ⟨htype, admitted_of_candidate ⟨ownedRow_of_partition hrow, hscope⟩⟩

/-- What the loop over the desired endpoints keeps. -/
structure ScopedState (rows : List Endpoint) (ownerID : String) (allowed : Endpoint → Bool)
    (st : PlanState) : Prop where
  operations : ∀ op ∈ st.operations, Admitted rows ownerID allowed op
  stale : ∀ c ∈ st.staleCandidates, Candidate rows ownerID allowed c

theorem planDesired_admitted {byLogical : GoMap (List Endpoint)} {st : PlanState} {key : String} {e : Endpoint}
    (hc : ForallValues (fun op => op.type = .conflict) conflicts) (h : ScopedState rows ownerID allowed st) :
    ScopedState rows ownerID allowed
      (planDesired (groupBy Endpoint.key rows) byLogical ownerID allowed conflicts replacements st key e) := by
  have hadd : ∀ op, Admitted rows ownerID allowed op → ∀ op' ∈ st.operations ++ [op],
      Admitted rows ownerID allowed op' := by
    intro op hop op' hop'
    rcases mem_append.1 hop' with hop' | hop'
    · exact h.operations op' hop'
    · rw [mem_singleton.1 hop']; exact hop
  unfold planDesired
  simp only
  split
  · rename_i op hlook
    split
    · exact h
    · exact ⟨hadd op (admitted_of_no_change (by rw [hc _ op hlook]; rfl)), h.stale⟩
  · split
    · exact h
    · split
      · exact ⟨hadd _ (admitted_of_no_change rfl), h.stale⟩
      · split
        · exact ⟨h.operations, h.stale⟩
        · -- the first owned row is kept, the others are stale
          rename_i kept duplicates hrows
          have howned : ∀ c ∈ kept :: duplicates, OwnedRow rows ownerID c :=
            fun c hc => ownedRow_of_partition (hrows ▸ hc)
          refine ⟨?_, ?_⟩
          · split
            · exact h.operations
            · exact hadd _ ⟨fun _ => howned kept
                mem_cons_self, by intro hd; simp [OperationType.destroysRow] at hd⟩
          · intro c hc
            rcases mem_append.1 hc with hc | hc
            · exact h.stale c hc
            · obtain ⟨hmem, hscope⟩ := mem_filter.1 hc
              exact ⟨howned c (mem_cons_of_mem _ hmem), hscope⟩

theorem planDesiredAll_admitted (desiredByKey : GoMap Endpoint) (byLogical : GoMap (List Endpoint))
    (hc : ForallValues (fun op => op.type = .conflict) conflicts) :
    ScopedState rows ownerID allowed
      (planDesiredAll rt desiredByKey (groupBy Endpoint.key rows) byLogical ownerID allowed conflicts
        replacements) := by
  unfold planDesiredAll
  exact List.foldlRecOn _ _ ⟨by simp, by simp⟩ fun st hst p _ => planDesired_admitted hc hst

theorem staleRows_candidate {desiredByKey : GoMap Endpoint} {p : String × List Endpoint}
    (hp : p ∈ rt.range .current (groupBy Endpoint.key rows))
    (h : c ∈ staleRows desiredByKey ownerID allowed conflicts replacements blocked p.1 p.2) :
    Candidate rows ownerID allowed c := by
  unfold staleRows at h
  split at h
  · simp at h
  · obtain ⟨hmem, hrow⟩ := mem_filter.1 h
    rw [mem_range_groupBy (rt.order_perm .current) Endpoint.key rows hp] at hmem
    simp only [Bool.and_eq_true] at hrow
    exact ⟨⟨(mem_filter.1 hmem).1, hrow.1.2⟩, hrow.2⟩

/-- What the pairing loop keeps. -/
structure ScopedPairs (rows : List Endpoint) (ownerID : String) (allowed : Endpoint → Bool)
    (st : PairState) : Prop where
  operations : ∀ op ∈ st.operations, Admitted rows ownerID allowed op
  stale : ∀ c ∈ st.staleCandidates, Candidate rows ownerID allowed c

theorem pairLogical_admitted {stale : List Endpoint} {logical : String} {creates : List Endpoint}
    (hstale : ∀ c ∈ stale, Candidate rows ownerID allowed c) (h : ScopedPairs rows ownerID allowed st) :
    ScopedPairs rows ownerID allowed (pairLogical blocked
      (groupBy Endpoint.logicalKey stale) st logical creates) := by
  unfold pairLogical
  split
  · exact h
  · rw [slice_groupBy]
    split
    · rename_i c s hs
      split
      · exact h
      · have hsm : s ∈ stale.filter fun a => a.logicalKey = logical := by rw [hs]; simp
        refine ⟨?_, fun c hc => h.stale c (mem_of_mem_eraseP hc)⟩
        intro op hop
        rcases mem_append.1 hop with hop | hop
        · exact h.operations op hop
        · rw [mem_singleton.1 hop]
          exact admitted_of_candidate (hstale s (mem_of_mem_filter hsm))
    · exact h

theorem pairReplacements_admitted (h : ScopedPairs rows ownerID allowed st) :
    ScopedPairs rows ownerID allowed (pairReplacements rt cleanup blocked st) := by
  unfold pairReplacements
  split
  · exact List.foldlRecOn _ _ h fun st' hst' p _ => pairLogical_admitted h.stale hst'
  · exact h

theorem finishPlan_admitted (h : ScopedPairs rows ownerID allowed st) :
    ∀ op ∈ finishPlan cleanup st, Admitted rows ownerID allowed op := by
  intro op hop
  unfold finishPlan at hop
  rcases mem_append.1 hop with hop | hop
  · rcases mem_append.1 hop with hop | hop
    · exact h.operations op hop
    · obtain ⟨e, -, rfl⟩ := mem_map.1 hop
      exact admitted_of_no_change rfl
  · obtain ⟨c, hc, hcl⟩ := mem_filterMap.1 hop
    have hcandidate := h.stale c (mem_of_mem_filter hc)
    have hrow : op.current = c := by
      unfold cleanupOperation at hcl
      split at hcl
      · rw [← some.inj hcl]
      · split at hcl
        · simp at hcl
        · rw [← some.inj hcl]
      · simp at hcl
    exact admitted_of_candidate (hrow ▸ hcandidate)

/-- **Every operation of a plan that changes a row is about an owned row of the table, and every
destructive one about a row in the cleanup scope**, for arbitrary desired endpoints and rows. -/
theorem plan_admitted (rt : Runtime) (desired current : List Endpoint) (ownerID : String)
    (cleanup : CleanupPolicy) (allowed : Endpoint → Bool) :
    ∀ op ∈ buildWithCleanupScope rt desired current ownerID cleanup allowed,
      Admitted (current.map Endpoint.normalize) ownerID allowed op := by
  intro op hop
  unfold buildWithCleanupScope at hop
  simp only at hop
  set rows := current.map Endpoint.normalize
  set desiredByGroup := groupDesired rt (indexDesired desired)
  set unowned := unownedConflicts rt (indexDesired desired) (groupBy Endpoint.mutationGroupKey rows) ownerID
    (desiredSetConflicts rt desiredByGroup)
  have hunowned : ForallValues (fun op => op.type = .conflict) unowned :=
    unownedConflicts_type _ _ (desiredSetConflicts_type _)
  obtain ⟨hconf, hrep⟩ := @cnameTransitions_admitted rt rows ownerID cleanup allowed unowned desiredByGroup
    (groupBy Endpoint.logicalKey rows) hunowned
  set decided := cnameTransitions rt desiredByGroup (groupBy Endpoint.mutationGroupKey rows)
    (groupBy Endpoint.logicalKey rows) ownerID cleanup allowed unowned
  have hst := @planDesiredAll_admitted rt rows ownerID allowed decided.1 decided.2 (indexDesired desired)
    (groupBy Endpoint.logicalKey rows) hconf
  have hmem := ((perm_insertionSort _ _).trans (rt.tieOperations_perm _)).mem_iff.1 hop
  refine finishPlan_admitted (pairReplacements_admitted ⟨?_, ?_⟩) op hmem
  · intro op hop
    rcases mem_append.1 hop with hop | hop
    · exact hst.operations op hop
    · obtain ⟨⟨g, op'⟩, hp, rfl⟩ := mem_map.1 hop
      exact hrep g op' ((mem_range (rt.order_perm _) _).1 hp)
  · intro c hc
    rcases mem_append.1 hc with hc | hc
    · exact hst.stale c hc
    · obtain ⟨p, hp, hc⟩ := mem_flatMap.1 hc
      exact staleRows_candidate hp hc

/-- Restricted ownership drops operations and adds conflicts. -/
theorem enforce_inScope {ops : List Operation} {restricted : GoMap RestrictedOwnershipConflict}
    (h : ∀ op ∈ ops, InScope allowed op) :
    ∀ op ∈ enforceRestrictedOwnershipConflicts ops restricted, InScope allowed op := by
  intro op hop
  unfold enforceRestrictedOwnershipConflicts at hop
  split at hop
  · exact h op hop
  · rcases mem_append.1 hop with hop | hop
    · obtain ⟨g, -, hg⟩ := mem_filterMap.1 hop
      obtain ⟨c, -, rfl⟩ := Option.map_eq_some_iff.1 hg
      exact inScope_of_conflict rfl
    · exact h op (mem_of_mem_filter hop)

section

variable {ops : List Operation} {n : ℕ} {cfg : Config}

/-- The guard passes everything, because there is no cleanup or because none of its two
rules applies; or it refuses all cleanup. -/
theorem guardCleanup_cases :
    ((guardCleanup ops n cfg).1 = ops ∧ (guardCleanup ops n cfg).2.count = 0 ∧
        ((∀ op ∈ ops, isCleanupOperation op.type = false) ∨
          ¬(n = 0 ∧ cfg.allowEmptyDesiredCleanup = false) ∧
            ¬(0 < cfg.maxCleanupPerCycle ∧
              cfg.maxCleanupPerCycle < (ops.filter fun op => isCleanupOperation op.type).length))) ∨
      ((guardCleanup ops n cfg).1 = ops.filter (fun op => !isCleanupOperation op.type) ∧
        0 < (guardCleanup ops n cfg).2.count) := by
  unfold guardCleanup
  simp only
  split
  · rename_i hzero
    left
    refine ⟨rfl, rfl, Or.inl fun op hop => ?_⟩
    rw [length_eq_zero_iff, filter_eq_nil_iff] at hzero
    simpa using hzero op hop
  · rename_i hpos
    split
    · right; exact ⟨rfl, Nat.pos_of_ne_zero hpos⟩
    · rename_i hempty
      split
      · right; exact ⟨rfl, Nat.pos_of_ne_zero hpos⟩
      · rename_i hcap
        left; exact ⟨rfl, rfl, Or.inr ⟨hempty, hcap⟩⟩

theorem guardCleanup_sublist : (guardCleanup ops n cfg).1.Sublist ops := by
  rcases @guardCleanup_cases ops n cfg with ⟨h, -⟩ | ⟨h, -⟩
  · rw [h]
  · rw [h]; exact filter_sublist

theorem guardCleanup_refused (h : 0 < (guardCleanup ops n cfg).2.count) :
    (guardCleanup ops n cfg).1 = ops.filter fun op => !isCleanupOperation op.type := by
  rcases @guardCleanup_cases ops n cfg with ⟨-, hc, -⟩ | ⟨hr, -⟩
  · omega
  · exact hr

theorem guardCleanup_empty (hn : n = 0) (hcfg : cfg.allowEmptyDesiredCleanup = false) :
    ∀ op ∈ (guardCleanup ops n cfg).1, isCleanupOperation op.type = false := by
  rcases @guardCleanup_cases ops n cfg with ⟨h, -, hnone | ⟨hne, -⟩⟩ | ⟨h, -⟩
  · rw [h]; exact hnone
  · exact absurd ⟨hn, hcfg⟩ hne
  · rw [h]
    intro op hop
    simpa using (mem_filter.1 hop).2

theorem guardCleanup_cap (hcap : 0 < cfg.maxCleanupPerCycle) :
    (((guardCleanup ops n cfg).1.filter fun op => isCleanupOperation op.type).length : ℤ) ≤
      cfg.maxCleanupPerCycle := by
  have hnil : ∀ l : List Operation, (∀ op ∈ l, isCleanupOperation op.type = false) →
      ((l.filter fun op => isCleanupOperation op.type).length : ℤ) ≤ cfg.maxCleanupPerCycle := by
    intro l hl
    have : l.filter (fun op => isCleanupOperation op.type) = [] := by
      rw [filter_eq_nil_iff]
      intro op hop
      simp [hl op hop]
    rw [this]
    simpa using hcap.le
  rcases @guardCleanup_cases ops n cfg with ⟨h, -, hnone | ⟨-, hle⟩⟩ | ⟨h, -⟩
  · rw [h]; exact hnil _ hnone
  · rw [h]
    by_contra hgt
    exact hle ⟨hcap, by omega⟩
  · rw [h]
    refine hnil _ fun op hop => ?_
    simpa using (mem_filter.1 hop).2

end

theorem prepare_inScope (rt : Runtime) (cfg : Config) (discovery : Discovery) (policies : Option PolicyResult)
    (current : List Endpoint) :
    ∀ op ∈ (prepare rt cfg discovery policies current).operations,
      InScope (cleanupScope cfg discovery policies) op := by
  intro op hop
  exact enforce_inScope (fun op hop => (plan_admitted _ _ _ _ _ _ op hop).scope) op
    (guardCleanup_sublist.subset hop)

/-- What the cleanup scope of a cycle promises about a row. -/
theorem cleanupScope_iff {cfg : Config} {discovery : Discovery} {policies : Option PolicyResult} {c : Endpoint} :
    cleanupScope cfg discovery policies c = true ↔
      (discovery.incompleteSources = [] ∧ invalidPolicyNamespaces policies = []) ∧
        normalizeDNSName c.dnsName ∉ quotaRejectedNames policies ∧ cfg.domainAllowed c.dnsName = true ∧
          (cfg.exclusiveZoneOwnership = false → cfg.namespaceInScope c = true ∧ cfg.sourceInScope c = true) := by
  unfold cleanupScope cleanupSuppressed cleanupAllowed
  cases discovery.incompleteSources <;> cases invalidPolicyNamespaces policies <;>
    cases cfg.domainAllowed c.dnsName <;> cases cfg.exclusiveZoneOwnership <;> simp

/-- **The cleanup gates of a cycle.** In the operations that `Prepare` returns: an incomplete
source or an invalid policy rules out every delete, deactivate and replace; no such operation
is about a row outside the scope; and the guard's two rules hold, a refusal taking away all
deletes and deactivates and nothing else. -/
theorem cleanup_gates (rt : Runtime) (cfg : Config) (discovery : Discovery) (policies : Option PolicyResult)
    (current : List Endpoint) :
    let audit := prepare rt cfg discovery policies current
    ((discovery.incompleteSources ≠ [] ∨ invalidPolicyNamespaces policies ≠ []) →
        ∀ op ∈ audit.operations, op.type.destroysRow = false) ∧
      (∀ op ∈ audit.operations, op.type.destroysRow = true →
        (∀ result, policies = some result → ∀ r ∈ result.rejected, r.forQuota = true →
          normalizeDNSName op.current.dnsName ≠ normalizeDNSName r.endpoint.dnsName) ∧
        cfg.domainAllowed op.current.dnsName = true ∧
        (cfg.exclusiveZoneOwnership = false →
          cfg.namespaceInScope op.current = true ∧ cfg.sourceInScope op.current = true)) ∧
      (desiredEndpoints discovery policies = [] → cfg.allowEmptyDesiredCleanup = false →
        ∀ op ∈ audit.operations, isCleanupOperation op.type = false) ∧
      (0 < cfg.maxCleanupPerCycle →
        ((audit.operations.filter fun op => isCleanupOperation op.type).length : ℤ) ≤ cfg.maxCleanupPerCycle) ∧
      (0 < audit.refusal.count →
        audit.operations = (plannedOperations rt cfg discovery policies current).filter
          fun op => !isCleanupOperation op.type) := by
  intro audit
  have hscope := prepare_inScope rt cfg discovery policies current
  refine ⟨?_, ?_, ?_, guardCleanup_cap, guardCleanup_refused⟩
  · intro hsup op hop
    rw [Bool.eq_false_iff]
    intro hd
    have h := (cleanupScope_iff.1 (hscope op hop hd)).1
    rcases hsup with hne | hne
    · exact hne h.1
    · exact hne h.2
  · intro op hop hd
    obtain ⟨-, hquota, hdom, hrules⟩ := cleanupScope_iff.1 (hscope op hop hd)
    refine ⟨?_, hdom, hrules⟩
    rintro result rfl r hr hq hname
    apply hquota
    rw [hname]
    exact mem_map.2 ⟨r, mem_filter.2 ⟨hr, hq⟩, rfl⟩
  · intro hempty hcfg
    exact guardCleanup_empty (by rw [hempty]; rfl) hcfg

/-- Two stale rows under a cap of one: the guard refuses, and the create of the plan stays. -/
theorem cleanup_gates_cap :
    let e : Endpoint := { dnsName := "www.lan", recordType := "A", targets := ["192.0.2.1"], zone := "lan" }
    let rows := [{ e with dnsName := "a.lan", ownerID := "me", providerID := "1" },
      { e with dnsName := "b.lan", ownerID := "me", providerID := "2" }]
    let cfg : Config := { ownerID := "me", maxCleanupPerCycle := 1 }
    let audit := prepare .plain cfg { endpoints := [e] } none rows
    audit.refusal.count = 2 ∧ audit.operations.map (fun op => op.type) = [.create] ∧
      ((audit.operations.filter fun op => isCleanupOperation op.type).length : ℤ) ≤ 1 := by
  intro e rows cfg audit
  exact ⟨by decide +kernel, by decide +kernel,
    (cleanup_gates .plain cfg { endpoints := [e] } none rows).2.2.2.1 (by decide +kernel)⟩

end FortigateDns
