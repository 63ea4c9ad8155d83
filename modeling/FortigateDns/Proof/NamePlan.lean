import FortigateDns.Proof.PlanGroup
import FortigateDns.Spec.Table

/-!
# What a planned operation can be

The inversion lemmas of `groupPlan`: where an operation of a name comes from and what then
holds of its row (`mem_plan`, `mem_recordPlan`, `nameDecision_replace`,
`nameDecision_conflict`). The rows of a name fall apart into those that are kept for a
desired endpoint and those that are stale, and no row is both (`kept_not_stale`).
-/

namespace FortigateDns

open Go GoMap List

variable {c e f : Endpoint}

/-- The desired endpoints and rows of one DNS owner name. -/
structure NameOK (g : String) (D C : List Endpoint) : Prop where
  desired : ∀ e ∈ D, e.WellFormed ∧ e.mutationGroupKey = g
  keys : (D.map Endpoint.key).Nodup
  rows : ∀ c ∈ C, c.WellFormed ∧ c.mutationGroupKey = g
  ids : (C.map Endpoint.providerID).Nodup
  nonBlank : ∀ c ∈ C, hasProviderID c = true

variable {rt : Runtime} {desired current D C : List Endpoint} {ownerID : String} {cleanup : CleanupPolicy}
variable {allowed : Endpoint → Bool} {g : String} {op : Operation}

theorem nameOK (hd : ∀ e ∈ desired, e.WellFormed) (hc : TableOK current) (g : String) :
    NameOK g (desiredOf desired g) (rowsOf current g) where
  desired _ he := ⟨wf_of_mem_desiredOf hd he, (mem_desiredOf.1 he).2⟩
  keys := desiredOf_keys_nodup hd g
  rows _ h := ⟨(rowsOf_wf hc.wf h).1, (rowsOf_wf hc.wf h).2.2⟩
  ids := hc.ids.sublist (filter_sublist.map _)
  nonBlank c h := hc.nonBlank c (rowsOf_wf hc.wf h).2.1

theorem mem_rowsOf : c ∈ rowsOf current g ↔ c ∈ current ∧ c.mutationGroupKey = g := by
  simp [rowsOf]

/-- An operation of the plan is an operation of its name. -/
theorem mem_plan (hd : ∀ e ∈ desired, e.WellFormed) (hc : ∀ c ∈ current, c.WellFormed) :
    op ∈ buildWithCleanupScope rt desired current ownerID cleanup allowed ↔
      op ∈ groupPlan ownerID cleanup allowed (desiredOf desired op.group) (rowsOf current op.group) := by
  rw [← (buildWithCleanupScope_group rt hd hc ownerID cleanup allowed op.group).mem_iff, mem_filter]
  simp

theorem mem_owned : c ∈ (partitionOwned C ownerID).1 ↔ c ∈ C ∧ ownedBy c ownerID = true := by
  simp [partitionOwned]

theorem mem_unowned : c ∈ (partitionOwned C ownerID).2 ↔ c ∈ C ∧ ownedBy c ownerID = false := by
  simp [partitionOwned]

theorem unownedSiblings_eq_nil :
    unownedSiblings ownerID C e = [] ↔ ∀ c ∈ C, c.logicalKey = e.logicalKey → ownedBy c ownerID = true := by
  unfold unownedSiblings
  rw [eq_nil_iff_forall_not_mem]
  simp only [mem_unowned, mem_filter, decide_eq_true_eq, not_and, Bool.not_eq_false]
  exact ⟨fun h c hc hl => h c ⟨hc, hl⟩, fun h c hc => h c hc.1 hc.2⟩

theorem unownedSiblings_congr (h : e.logicalKey = f.logicalKey) :
    unownedSiblings ownerID C e = unownedSiblings ownerID C f := by
  unfold unownedSiblings; rw [h]

theorem mem_unownedSiblings :
    c ∈ unownedSiblings ownerID C e ↔ c ∈ C ∧ c.logicalKey = e.logicalKey ∧ ownedBy c ownerID = false := by
  unfold unownedSiblings
  rw [mem_unowned, mem_filter, decide_eq_true_eq, and_assoc]

theorem copies_nodup (h : NameOK g D C) (e : Endpoint) : (copies ownerID C e).Nodup := by
  have hC : C.Nodup := List.Nodup.of_map Endpoint.providerID h.ids
  unfold copies partitionOwned
  exact (perm_insertionSort _ _).nodup_iff.2 ((hC.filter _).filter _)

theorem head_copies {kept : Endpoint} (h : (copies ownerID C e).head? = some kept) :
    kept ∈ C ∧ kept.key = e.key ∧ ownedBy kept ownerID = true :=
  copies_mem.1 (mem_of_head? h)

theorem unownedConflict_eq_none :
    unownedConflict ownerID C e = none ↔
      ∀ c ∈ C, ownedBy c ownerID = false → cnameTypesConflict e.recordType c.recordType = false := by
  unfold unownedConflict unownedCNAMEConflict
  rw [Option.map_eq_none_iff, find?_eq_none]
  simp only [mem_unowned, and_imp, Bool.not_eq_true]

theorem nameConflict_eq_none :
    nameConflict ownerID D C = none ↔ desiredSetConflict D = none ∧
      ∀ e ∈ D, ∀ c ∈ C, ownedBy c ownerID = false → cnameTypesConflict e.recordType c.recordType = false := by
  unfold nameConflict
  rw [Option.or_eq_none_iff, findSome?_eq_none_iff]
  simp only [unownedConflict_eq_none]

theorem nameConflict_conflict (h : nameConflict ownerID D C = some op) : op.type = .conflict := by
  unfold nameConflict at h
  rw [Option.or_eq_some_iff] at h
  rcases h with h | ⟨-, h⟩
  · exact (desiredSetConflict_desired h).2.2
  · obtain ⟨e, -, h⟩ := exists_of_findSome?_eq_some h
    unfold unownedConflict at h
    obtain ⟨c, -, rfl⟩ := Option.map_eq_some_iff.1 h
    rfl

theorem nameConflict_reason (h : nameConflict ownerID D C = some op) : op.reason ≠ reasonNotOwned := by
  unfold nameConflict at h
  rw [Option.or_eq_some_iff] at h
  rcases h with h | ⟨-, h⟩
  · unfold desiredSetConflict at h
    split at h
    · cases h
      exact (by decide : reasonMixedCNAME ≠ reasonNotOwned)
    · split at h
      · cases h
        exact (by decide : reasonCNAMEMultipleTargets ≠ reasonNotOwned)
      · simp at h
  · obtain ⟨e, -, h⟩ := exists_of_findSome?_eq_some h
    unfold unownedConflict at h
    obtain ⟨c, -, rfl⟩ := Option.map_eq_some_iff.1 h
    exact (by decide : reasonUnownedCNAME ≠ reasonNotOwned)

/-- When no row of a name is in transition, and what that says. -/
theorem cnameTransition_eq_none {L : List Endpoint} :
    cnameTransition D C L ownerID cleanup allowed = none ↔
      needsCNAMETargetReplacement D (partitionOwned C ownerID).1 = false ∧
        hasCNAMETypeTransition D (partitionOwned C ownerID).1 = false := by
  unfold cnameTransition
  simp only
  constructor
  · intro h
    split at h
    · rename_i hcond
      simpa using hcond
    · split at h
      · simp at h
      · split at h <;> simp at h
  · rintro ⟨h1, h2⟩
    simp [h1, h2]

/-- **An operation that settles a name is a conflict or an in-place replacement.** -/
theorem nameDecision_type (h : nameDecision ownerID cleanup allowed D C = some op) :
    op.type = .conflict ∨ op.type = .replace := by
  unfold nameDecision at h
  rw [Option.or_eq_some_iff] at h
  rcases h with h | ⟨-, h⟩
  · exact Or.inl (nameConflict_conflict h)
  · unfold cnameTransition at h
    simp only at h
    split at h
    · simp at h
    · split at h
      · cases h; exact Or.inl rfl
      · split at h <;> cases h
        · exact Or.inr rfl
        · exact Or.inl rfl

/-- **The in-place replacement of a CNAME transition**: one desired endpoint takes over the
only owned row, and no unowned row is in its way. -/
theorem nameDecision_replace (h : nameDecision ownerID cleanup allowed D C = some op) (ht : op.type = .replace) :
    ∃ e c, D = [e] ∧ (partitionOwned C ownerID).1 = [c] ∧ op.desired = e ∧ op.current = c ∧
      hasProviderID c = true ∧ allowed c = true ∧ unownedSiblings ownerID C e = [] ∧
      nameConflict ownerID D C = none ∧
      (needsCNAMETargetReplacement [e] [c] = true ∧ cleanup = .delete ∨
        needsCNAMETargetReplacement [e] [c] = false ∧ cnameTypesConflict e.recordType c.recordType = true) := by
  unfold nameDecision at h
  rw [Option.or_eq_some_iff] at h
  rcases h with h | ⟨hn, h⟩
  · rw [nameConflict_conflict h] at ht; simp at ht
  unfold cnameTransition at h
  simp only at h
  split at h
  · simp at h
  rename_i htrans
  split at h
  · cases h; simp at ht
  rename_i hsib
  split at h
  swap
  · cases h; simp at ht
  rename_i hcond
  obtain ⟨hD, hown, hpid, hall, hpol⟩ := hcond
  obtain ⟨e, rfl⟩ := length_eq_one_iff.1 hD
  obtain ⟨c, hc⟩ := length_eq_one_iff.1 hown
  simp only [hc, headD_cons] at h hpid hall hpol htrans
  cases h
  refine ⟨e, c, rfl, hc, rfl, rfl, hpid, hall, ?_, hn, ?_⟩
  · unfold unownedSiblings
    simp only [length_singleton, headD_cons, true_and, not_lt, Nat.le_zero] at hsib
    exact length_eq_zero_iff.1 hsib
  · cases htt : needsCNAMETargetReplacement [e] [c] with
    | true => left; rw [htt] at hpol; simpa using hpol
    | false =>
      right
      rw [htt] at htrans
      refine ⟨rfl, ?_⟩
      simpa [hasCNAMETypeTransition] using htrans

/-- **A conflict of a whole name**: either its reason says so, or the only desired endpoint
has an unowned row in its logical record. -/
theorem nameDecision_conflict (h : nameDecision ownerID cleanup allowed D C = some op)
    (ht : op.type = .conflict) :
    op.reason ≠ reasonNotOwned ∨ ∃ e, D = [e] ∧ op.desired = e ∧ unownedSiblings ownerID C e ≠ [] := by
  unfold nameDecision at h
  rw [Option.or_eq_some_iff] at h
  rcases h with h | ⟨-, h⟩
  · exact Or.inl (nameConflict_reason h)
  unfold cnameTransition at h
  simp only at h
  split at h
  · simp at h
  split at h
  · rename_i hsib
    obtain ⟨e, rfl⟩ := length_eq_one_iff.1 hsib.1
    cases h
    right
    refine ⟨e, rfl, rfl, ?_⟩
    have hpos : 0 < (unownedSiblings ownerID C e).length := hsib.2
    exact ne_nil_of_length_pos hpos
  · split at h
    · cases h; simp at ht
    · cases h
      left
      simp only
      split <;> decide

theorem mem_groupPlan :
    op ∈ groupPlan ownerID cleanup allowed D C ↔ nameDecision ownerID cleanup allowed D C = some op ∨
      nameDecision ownerID cleanup allowed D C = none ∧ op ∈ recordPlan ownerID cleanup allowed D C := by
  unfold groupPlan
  cases nameDecision ownerID cleanup allowed D C with
  | none => simp
  | some x => simp [eq_comm]

theorem mem_recordPlan :
    op ∈ recordPlan ownerID cleanup allowed D C ↔
      (∃ e ∈ D, recordOperation ownerID C e = some op) ∨
      (∃ e ∈ missing ownerID D C, recordReplacement ownerID cleanup allowed D C e = some op) ∨
      (∃ e ∈ created ownerID cleanup allowed D C,
        op = { type := .create, desired := e, reason := "record is missing" }) ∨
      (created ownerID cleanup allowed D C = [] ∧
        ∃ c ∈ leftover ownerID cleanup allowed D C, cleanupOperation cleanup c = some op) := by
  unfold recordPlan cleanupOperations
  simp only [mem_append, mem_filterMap, mem_map, or_assoc]
  by_cases h : created ownerID cleanup allowed D C = []
  · simp [h]
  · simp [h, eq_comm]

theorem recordOperation_eq_some :
    recordOperation ownerID C e = some op ↔
      (∃ c, (unownedSiblings ownerID C e).head? = some c ∧
        op = { type := .conflict, desired := e, current := c, reason := reasonNotOwned }) ∨
      (unownedSiblings ownerID C e = [] ∧ ∃ kept, (copies ownerID C e).head? = some kept ∧
        kept.equalRecord e = false ∧
        op = { type := .update, desired := e, current := kept
               reason := "record differs from desired state" }) := by
  unfold recordOperation recordConflict recordUpdate
  cases hu : unownedSiblings ownerID C e with
  | cons c l =>
    rw [if_neg (cons_ne_nil c l)]
    simp only [head?_cons, Option.map_some, Option.some.injEq, reduceCtorEq, false_and, or_false]
    exact ⟨fun h => ⟨c, rfl, h.symm⟩, fun ⟨_, h1, h2⟩ => by rw [h2, h1]⟩
  | nil =>
    rw [if_pos rfl]
    simp only [head?_nil, reduceCtorEq, false_and, exists_false, true_and, false_or,
      Option.bind_eq_some_iff]
    constructor
    · rintro ⟨kept, hk, h⟩
      refine ⟨kept, hk, ?_⟩
      split at h
      · simp at h
      · rename_i hne
        exact ⟨by simpa using hne, (Option.some.inj h).symm⟩
    · rintro ⟨kept, hk, hne, rfl⟩
      exact ⟨kept, hk, by simp [hne]⟩

theorem cleanupOperation_eq_some :
    cleanupOperation cleanup c = some op ↔
      (cleanup = .delete ∧ op = { type := .delete, current := c, reason := "managed record is stale" }) ∨
      (cleanup = .deactivate ∧ c.disabled = false ∧
        op = { type := .deactivate, desired := { c with disabled := true }, current := c,
               reason := "managed record is stale" }) := by
  unfold cleanupOperation
  cases cleanup with
  | delete =>
    simp only [Option.some.injEq, true_and, reduceCtorEq, false_and, or_false]
    exact eq_comm
  | keep => simp
  | deactivate =>
    cases c.disabled with
    | true => simp
    | false =>
      simp only [Bool.false_eq_true, if_false, Option.some.injEq, reduceCtorEq, false_and, true_and, false_or]
      exact eq_comm

/-- A cleanup operation is about its row. -/
theorem cleanupOperation_current (h : cleanupOperation cleanup c = some op) :
    op.current = c ∧ (op.type = .delete ∨ op.type = .deactivate) ∧ cleanup ≠ .keep := by
  rcases cleanupOperation_eq_some.1 h with ⟨hp, rfl⟩ | ⟨hp, -, rfl⟩ <;> simp [hp]

/-- Where a cleanup operation comes from. -/
theorem groupPlan_cleanup (hop : op ∈ groupPlan ownerID cleanup allowed D C)
    (ht : op.type = .delete ∨ op.type = .deactivate) :
    nameDecision ownerID cleanup allowed D C = none ∧ created ownerID cleanup allowed D C = [] ∧
      cleanupOperation cleanup op.current = some op := by
  rcases mem_groupPlan.1 hop with hn | ⟨hn, hr⟩
  · rcases nameDecision_type hn with h | h <;> simp [h] at ht
  · rcases mem_recordPlan.1 hr with ⟨e, -, hrec⟩ | ⟨e, -, hrep⟩ | ⟨e, -, rfl⟩ | ⟨hcr, c, -, hcl⟩
    · rcases recordOperation_eq_some.1 hrec with ⟨c, -, rfl⟩ | ⟨-, kept, -, -, rfl⟩ <;> simp at ht
    · obtain ⟨-, -, s, -, -, rfl⟩ := recordReplacement_eq_some.1 hrep
      simp at ht
    · simp at ht
    · have hcur := (cleanupOperation_current hcl).1
      exact ⟨hn, hcr, hcur.symm ▸ hcl⟩

theorem orphaned_iff :
    orphaned ownerID allowed D C c = true ↔ c.key ∉ D.map Endpoint.key ∧
      (∀ e ∈ D, e.logicalKey = c.logicalKey → unownedSiblings ownerID C e = []) ∧
      ownedBy c ownerID = true ∧ allowed c = true := by
  unfold orphaned
  simp [and_assoc]

theorem mem_stale :
    c ∈ stale ownerID allowed D C ↔ (∃ e ∈ D, c ∈ duplicatesOf ownerID allowed C e) ∨
      c ∈ C ∧ orphaned ownerID allowed D C c = true := by
  unfold stale
  simp

/-- A stale row is an owned row of the name that may be cleaned up. -/
theorem stale_owned (hc : c ∈ stale ownerID allowed D C) :
    c ∈ C ∧ ownedBy c ownerID = true ∧ allowed c = true := by
  rcases mem_stale.1 hc with ⟨e, -, hdup⟩ | ⟨hcC, horph⟩
  · obtain ⟨-, hcop, hall⟩ := duplicatesOf_mem hdup
    obtain ⟨hcC, -, hown⟩ := copies_mem.1 hcop
    exact ⟨hcC, hown, hall⟩
  · obtain ⟨-, -, hown, hall⟩ := orphaned_iff.1 horph
    exact ⟨hcC, hown, hall⟩

/-- It is in a logical record without unowned rows. -/
theorem stale_row (h : NameOK g D C) (hc : c ∈ stale ownerID allowed D C) :
    c ∈ C ∧ ownedBy c ownerID = true ∧ allowed c = true ∧
      ∀ e ∈ D, e.logicalKey = c.logicalKey → unownedSiblings ownerID C e = [] := by
  obtain ⟨hcC, hown, hall⟩ := stale_owned hc
  refine ⟨hcC, hown, hall, ?_⟩
  rcases mem_stale.1 hc with ⟨e, he, hdup⟩ | ⟨-, horph⟩
  · obtain ⟨hu, hcop, -⟩ := duplicatesOf_mem hdup
    intro f hf hl
    have := logicalKey_of_key (h.rows c hcC).1 (h.desired e he).1 (copies_mem.1 hcop).2.1
    rw [unownedSiblings_congr (hl.trans this)]
    exact hu
  · exact (orphaned_iff.1 horph).2.1

theorem eq_of_key (h : NameOK g D C) (he : e ∈ D) (hf : f ∈ D) (hk : e.key = f.key) : e = f :=
  inj_on_of_nodup_map h.keys he hf hk

/-- **The row kept for a desired key is not stale.** -/
theorem kept_not_stale (h : NameOK g D C) {e kept : Endpoint} (he : e ∈ D)
    (hk : (copies ownerID C e).head? = some kept) : kept ∉ stale ownerID allowed D C := by
  intro hs
  obtain ⟨hkC, hkey, -⟩ := head_copies hk
  rcases mem_stale.1 hs with ⟨f, hf, hdup⟩ | ⟨-, horph⟩
  · obtain ⟨-, hcop, -⟩ := duplicatesOf_mem hdup
    have hfe : f = e := eq_of_key h hf he ((copies_mem.1 hcop).2.1.symm.trans hkey)
    subst hfe
    have hnd := @copies_nodup _ _ ownerID _ h f
    unfold duplicatesOf at hdup
    split at hdup
    · cases hl : copies ownerID C f with
      | nil => rw [hl] at hk; simp at hk
      | cons x l =>
        rw [hl] at hk hnd hdup
        simp only [head?_cons, Option.some.injEq] at hk
        subst hk
        exact (nodup_cons.1 hnd).1 (mem_of_mem_filter hdup)
    · simp at hdup
  · exact (orphaned_iff.1 horph).1 (mem_map.2 ⟨e, he, hkey.symm⟩)

theorem stale_nodup (h : NameOK g D C) : (stale ownerID allowed D C).Nodup := by
  have hC : C.Nodup := List.Nodup.of_map Endpoint.providerID h.ids
  have hD : D.Nodup := List.Nodup.of_map Endpoint.key h.keys
  unfold stale
  rw [nodup_append]
  refine ⟨?_, hC.filter _, ?_⟩
  · rw [nodup_flatMap]
    constructor
    · intro e _
      unfold duplicatesOf
      split
      · exact ((copies_nodup h e).sublist (tail_sublist _)).filter _
      · exact nodup_nil
    · refine hD.pairwise_of_forall_ne ?_
      intro e he f hf hne c hce hcf
      have h1 := (copies_mem.1 (duplicatesOf_mem hce).2.1).2.1
      have h2 := (copies_mem.1 (duplicatesOf_mem hcf).2.1).2.1
      exact hne (eq_of_key h he hf (h1.symm.trans h2))
  · intro c hc c' hc' heq
    subst heq
    obtain ⟨e, he, hdup⟩ := mem_flatMap.1 hc
    rw [mem_filter] at hc'
    have hkey := (copies_mem.1 (duplicatesOf_mem hdup).2.1).2.1
    exact (orphaned_iff.1 hc'.2).1 (mem_map.2 ⟨e, he, hkey.symm⟩)

/-- A replacement overwrites a stale row of its own logical record, under the delete policy. -/
theorem recordReplacement_row (h : recordReplacement ownerID cleanup allowed D C e = some op) :
    cleanup = .delete ∧ op.type = .replace ∧ op.desired = e ∧ op.current ∈ stale ownerID allowed D C ∧
      op.current.logicalKey = e.logicalKey := by
  obtain ⟨hdel, -, s, hs, -, rfl⟩ := recordReplacement_eq_some.1 h
  have hm : s ∈ (stale ownerID allowed D C).filter fun s => s.logicalKey = e.logicalKey := by
    rw [hs]; exact mem_singleton_self s
  rw [mem_filter, decide_eq_true_eq] at hm
  exact ⟨hdel, rfl, rfl, hm.1, hm.2⟩

/-- A replaced endpoint is the only missing one of its logical record. -/
theorem recordReplacement_unique (he : e ∈ missing ownerID D C) (hf : f ∈ missing ownerID D C)
    (h : recordReplacement ownerID cleanup allowed D C e = some op) (hl : e.logicalKey = f.logicalKey) :
    e = f := by
  obtain ⟨-, hlen, -⟩ := recordReplacement_eq_some.1 h
  obtain ⟨x, hx⟩ := length_eq_one_iff.1 hlen
  have h1 : e ∈ [x] := by rw [← hx]; simp [he]
  have h2 : f ∈ [x] := by rw [← hx]; simp [hf, hl]
  rw [mem_singleton] at h1 h2
  rw [h1, h2]

theorem leftover_row (h : c ∈ leftover ownerID cleanup allowed D C) :
    c ∈ stale ownerID allowed D C ∧ paired ownerID cleanup allowed D C c.logicalKey = false := by
  unfold leftover at h
  rw [mem_filter] at h
  exact ⟨h.1, by simpa using h.2⟩

/-- A replaced row is not cleaned up. -/
theorem replaced_not_leftover (he : e ∈ missing ownerID D C)
    (h : recordReplacement ownerID cleanup allowed D C e = some op) :
    op.current ∉ leftover ownerID cleanup allowed D C := by
  intro hm
  have hp : paired ownerID cleanup allowed D C op.current.logicalKey = true :=
    paired_iff.2 ⟨e, he, (recordReplacement_row h).2.2.2.2.symm, by rw [h]; rfl⟩
  rw [(leftover_row hm).2] at hp
  simp at hp

end FortigateDns
