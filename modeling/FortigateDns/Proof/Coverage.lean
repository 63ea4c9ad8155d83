import FortigateDns.Proof.Accounting

/-!
# Every desired record is accounted for

For each desired endpoint the plan reports a conflict, carries exactly one operation that
publishes it, or leaves an owned row alone that already is the desired record. The three
cases exclude each other (`plan_covers_desired`).
-/

namespace FortigateDns

open Go GoMap List

/-- The operations that bring a desired endpoint to the device. -/
def OperationType.publishes : OperationType → Bool
  | .create | .update | .replace => true
  | .delete | .deactivate | .conflict => false

/-- The operations that carry a desired endpoint. -/
def OperationType.carries (t : OperationType) : Bool := t.publishes || t == .conflict

section

variable (plan : List Operation) (current : List Endpoint) (ownerID : String) (e : Endpoint)

/-- The only operation for the endpoint's name is a conflict. -/
def OnlyConflict : Prop :=
  (plan.filter fun op => op.group = e.mutationGroupKey).length = 1 ∧
    ∀ op ∈ plan, op.group = e.mutationGroupKey → op.type = .conflict

/-- A conflict of the whole name: the only operation for the name, and not for the reason that
one logical record is not owned. -/
def NameConflict : Prop :=
  OnlyConflict plan e ∧ ∀ op ∈ plan, op.group = e.mutationGroupKey → op.reason ≠ reasonNotOwned

/-- A conflict of one logical record: one conflict carries the endpoint, the record has an
unowned row, and no other operation touches the record. -/
def RecordConflict : Prop :=
  (plan.filter fun op => op.type = .conflict ∧ op.desired = e).length = 1 ∧
    (∃ c ∈ current, c.logicalKey = e.logicalKey ∧ ownedBy c ownerID = false) ∧
    ∀ op ∈ plan, op.type ≠ .conflict →
      op.desired.logicalKey ≠ e.logicalKey ∧ op.current.logicalKey ≠ e.logicalKey

/-- One operation publishes the endpoint and no unowned row is in its way. -/
def Mutated : Prop :=
  (plan.filter fun op => op.type.publishes = true ∧ op.desired = e).length = 1 ∧
    (∀ op ∈ plan, op.type = .conflict → op.desired ≠ e) ∧
    (∀ c ∈ current, c.logicalKey = e.logicalKey → ownedBy c ownerID = true) ∧
    ∀ c ∈ current, c.mutationGroupKey = e.mutationGroupKey → ownedBy c ownerID = false →
      cnameTypesConflict e.recordType c.recordType = false

/-- An owned row is the desired record and no operation is about it. -/
def HasRow : Prop :=
  ∃ c ∈ current, ownedBy c ownerID = true ∧ c.key = e.key ∧ c.equalRecord e = true ∧ ∀ op ∈ plan, op.current ≠ c

/-- Nothing carries the endpoint, its name has no conflict of its own and its row is there. -/
def Satisfied : Prop :=
  (∀ op ∈ plan, op.type.carries = true → op.desired ≠ e) ∧ ¬ NameConflict plan e ∧ HasRow plan current ownerID e

instance : Decidable (OnlyConflict plan e) := by unfold OnlyConflict; infer_instance
instance : Decidable (NameConflict plan e) := by unfold NameConflict; infer_instance
instance : Decidable (RecordConflict plan current ownerID e) := by unfold RecordConflict; infer_instance
instance : Decidable (Mutated plan current ownerID e) := by unfold Mutated; infer_instance
instance : Decidable (HasRow plan current ownerID e) := by unfold HasRow; infer_instance
instance : Decidable (Satisfied plan current ownerID e) := by unfold Satisfied; infer_instance

end

/-- Exactly one of three. -/
def ExactlyOne (p q r : Prop) : Prop := (p ∧ ¬ q ∧ ¬ r) ∨ (¬ p ∧ q ∧ ¬ r) ∨ (¬ p ∧ ¬ q ∧ r)

instance (p q r : Prop) [Decidable p] [Decidable q] [Decidable r] : Decidable (ExactlyOne p q r) := by
  unfold ExactlyOne; infer_instance

variable {rt : Runtime} {desired current D C : List Endpoint} {ownerID : String} {cleanup : CleanupPolicy}
variable {allowed : Endpoint → Bool} {g : String} {op : Operation} {e : Endpoint}

theorem created_mem : e ∈ created ownerID cleanup allowed D C ↔
    e ∈ missing ownerID D C ∧ paired ownerID cleanup allowed D C e.logicalKey = false := by
  unfold created
  simp

theorem groupPlan_carries (hn : ∀ op, nameDecision ownerID cleanup allowed D C = some op → op.desired ∈ D)
    (hop : op ∈ groupPlan ownerID cleanup allowed D C) (ht : op.type.carries = true) : op.desired ∈ D := by
  rcases mem_groupPlan.1 hop with h | ⟨-, hr⟩
  · exact hn op h
  · rcases mem_recordPlan.1 hr with ⟨e, he, hrec⟩ | ⟨e, he, hrep⟩ | ⟨e, he, rfl⟩ | ⟨-, c, hc, hcl⟩
    · rw [recordOperation_desired hrec]; exact he
    · rw [(recordReplacement_row hrep).2.2.1]; exact (missing_mem.1 he).1
    · exact (missing_mem.1 (created_mem.1 he).1).1
    · rcases (cleanupOperation_current hcl).2.1 with h | h <;>
        simp [h, OperationType.carries, OperationType.publishes] at ht

theorem cleanupOperation_carries {c : Endpoint} (h : cleanupOperation cleanup c = some op) :
    op.type.carries = false := by
  rcases (cleanupOperation_current h).2.1 with h | h <;> rw [h] <;> rfl

/-- No desired endpoint is carried twice. -/
theorem groupPlan_carries_nodup (hD : D.Nodup) :
    (((groupPlan ownerID cleanup allowed D C).filter fun op => op.type.carries).map Operation.desired).Nodup := by
  unfold groupPlan
  split
  · rename_i op _
    by_cases hm : op.type.carries = true <;> simp [hm]
  · have hM : (missing ownerID D C).Nodup := hD.filter _
    unfold recordPlan
    simp only [filter_append, map_append]
    have hcln : (cleanupOperations ownerID cleanup allowed D C).filter (fun op => op.type.carries) = [] := by
      rw [filter_eq_nil_iff]
      intro op hop
      unfold cleanupOperations at hop
      split at hop
      · obtain ⟨c, -, hcl⟩ := mem_filterMap.1 hop
        simp [cleanupOperation_carries hcl]
      · simp at hop
    have hcr : (((created ownerID cleanup allowed D C).map
        (fun e => ({ type := .create, desired := e, reason := "record is missing" } : Operation))).filter
        fun op => op.type.carries).map Operation.desired = created ownerID cleanup allowed D C := by
      rw [filter_eq_self.2 (by
        intro op hop
        obtain ⟨e, -, rfl⟩ := mem_map.1 hop
        rfl), map_map]
      exact map_id _
    rw [hcln, hcr]
    simp only [map_nil, append_nil]
    have hrec : ∀ f ∈ ((D.filterMap (recordOperation ownerID C)).filter fun op => op.type.carries).map
        Operation.desired, f ∉ missing ownerID D C := by
      intro f hf hfm
      obtain ⟨op, hop, rfl⟩ := mem_map.1 hf
      obtain ⟨e, -, hop⟩ := mem_filterMap.1 (mem_filter.1 hop).1
      rw [recordOperation_desired hop] at hfm
      obtain ⟨-, hu, hk⟩ := missing_mem.1 hfm
      rcases recordOperation_eq_some.1 hop with ⟨c, hc, -⟩ | ⟨-, kept, hkept, -⟩
      · rw [hu] at hc; simp at hc
      · rw [hk] at hkept; simp at hkept
    have hrep : ∀ f ∈ (((missing ownerID D C).filterMap (recordReplacement ownerID cleanup allowed D C)).filter
        fun op => op.type.carries).map Operation.desired,
        f ∈ missing ownerID D C ∧ paired ownerID cleanup allowed D C f.logicalKey = true := by
      intro f hf
      obtain ⟨op, hop, rfl⟩ := mem_map.1 hf
      obtain ⟨e, he, hop⟩ := mem_filterMap.1 (mem_filter.1 hop).1
      rw [(recordReplacement_row hop).2.2.1]
      exact ⟨he, paired_iff.2 ⟨e, he, rfl, by rw [hop]; rfl⟩⟩
    -- each pass by itself, and no two of them
    rw [nodup_append, nodup_append]
    refine ⟨⟨?_, ?_, ?_⟩, hM.filter _, ?_⟩
    · refine nodup_pass hD ?_
      intro e _ f _ op1 op2 h1 h2 _ _ h
      rw [← recordOperation_desired h1, ← recordOperation_desired h2, h]
    · refine nodup_pass hM ?_
      intro e _ f _ op1 op2 h1 h2 _ _ h
      rw [← (recordReplacement_row h1).2.2.1, ← (recordReplacement_row h2).2.2.1, h]
    · intro f hf f' hf' heq
      exact hrec f hf (heq ▸ (hrep f' hf').1)
    · intro f hf f' hf' heq
      obtain ⟨h1, h2⟩ := created_mem.1 hf'
      rcases mem_append.1 hf with hf | hf
      · exact hrec f hf (heq ▸ h1)
      · rw [← heq, (hrep f hf).2] at h2; simp at h2

/-- The zero endpoint is in no logical record. -/
theorem logicalKey_ne_empty (he : e.WellFormed) : e.logicalKey ≠ ({} : Endpoint).logicalKey := by
  intro h
  rw [he.logicalKey_eq] at h
  have hempty : ({} : Endpoint).logicalKey = join "|" ["", "", ""] := by decide +kernel
  rw [hempty] at h
  have := join_inj (c := '|') rfl (by simp) (by simp)
    (by simp only [mem_cons, not_mem_nil, or_false]; rintro s (rfl | rfl | rfl)
        exacts [he.barZone, he.barName, he.barType])
    (by simp) h
  simp only [List.cons.injEq] at this
  exact he.name this.2.1

/-- The endpoint and the row of an operation that is not a conflict, if it has them, lie at
its name. -/
theorem groupPlan_parts (h : NameOK g D C) (hop : op ∈ groupPlan ownerID cleanup allowed D C)
    (ht : op.type ≠ .conflict) :
    (op.type = .delete ∧ op.desired = {} ∨ op.desired.WellFormed ∧ op.desired.mutationGroupKey = g) ∧
      (op.current = {} ∨ op.current ∈ C) := by
  rcases mem_groupPlan.1 hop with hn | ⟨-, hr⟩
  · rcases nameDecision_type hn with hc | hrep
    · exact absurd hc ht
    · obtain ⟨e, c, hD, hown, hdes, hcur, -⟩ := nameDecision_replace hn hrep
      have hc : c ∈ (partitionOwned C ownerID).1 := by rw [hown]; exact mem_singleton_self c
      refine ⟨Or.inr ?_, Or.inr ?_⟩
      · rw [hdes]; exact h.desired e (by rw [hD]; exact mem_singleton_self e)
      · rw [hcur]; exact (mem_owned.1 hc).1
  · rcases mem_recordPlan.1 hr with ⟨e, he, hrec⟩ | ⟨e, he, hrep⟩ | ⟨e, he, rfl⟩ | ⟨-, c, hc, hcl⟩
    · rcases recordOperation_eq_some.1 hrec with ⟨c, -, rfl⟩ | ⟨-, kept, hk, -, rfl⟩
      · exact absurd rfl ht
      · exact ⟨Or.inr (h.desired e he), Or.inr (head_copies hk).1⟩
    · obtain ⟨-, -, hdes, hs, -⟩ := recordReplacement_row hrep
      refine ⟨Or.inr ?_, Or.inr (stale_row h hs).1⟩
      rw [hdes]; exact h.desired e (missing_mem.1 he).1
    · exact ⟨Or.inr (h.desired e (missing_mem.1 (created_mem.1 he).1).1), Or.inl rfl⟩
    · have hcC := (stale_row h (leftover_row hc).1).1
      obtain ⟨hwf, hg⟩ := h.rows c hcC
      rcases cleanupOperation_eq_some.1 hcl with ⟨-, rfl⟩ | ⟨-, -, rfl⟩
      · exact ⟨Or.inl ⟨rfl, rfl⟩, Or.inr hcC⟩
      · exact ⟨Or.inr ⟨WellFormed.of_record hwf rfl rfl rfl rfl, hg⟩, Or.inr hcC⟩

theorem headD_mem {l : List Endpoint} : l.headD {} = {} ∨ l.headD {} ∈ l := by
  cases l with
  | nil => exact Or.inl rfl
  | cons x l => exact Or.inr mem_cons_self

theorem nameDecision_current (h : nameDecision ownerID cleanup allowed D C = some op) :
    op.current = {} ∨ op.current ∈ C := by
  unfold nameDecision at h
  rw [Option.or_eq_some_iff] at h
  rcases h with h | ⟨-, h⟩
  · unfold nameConflict at h
    rw [Option.or_eq_some_iff] at h
    rcases h with h | ⟨-, h⟩
    · unfold desiredSetConflict at h
      split at h
      · cases h; exact Or.inl rfl
      · split at h
        · cases h; exact Or.inl rfl
        · simp at h
    · obtain ⟨e, -, h⟩ := exists_of_findSome?_eq_some h
      obtain ⟨c, hc, rfl⟩ := Option.map_eq_some_iff.1 h
      exact Or.inr (mem_unowned.1 (mem_of_find?_eq_some hc)).1
  · have howned : (partitionOwned C ownerID).1.headD {} = {} ∨ (partitionOwned C ownerID).1.headD {} ∈ C :=
      headD_mem.imp_right fun h => (mem_owned.1 h).1
    unfold cnameTransition at h
    simp only at h
    split at h
    · simp at h
    · split at h
      · cases h
        exact headD_mem.imp_right fun h => mem_of_mem_filter (mem_unowned.1 h).1
      · split at h <;> cases h <;> exact howned

/-- The row of an operation, if it has one, lies at its name. -/
theorem groupPlan_current (h : NameOK g D C) (hop : op ∈ groupPlan ownerID cleanup allowed D C) :
    op.current = {} ∨ op.current ∈ C := by
  by_cases ht : op.type = .conflict
  · rcases mem_groupPlan.1 hop with hn | ⟨-, hr⟩
    · exact nameDecision_current hn
    · rcases mem_recordPlan.1 hr with ⟨e, -, hrec⟩ | ⟨e, -, hrep⟩ | ⟨e, -, rfl⟩ | ⟨-, c, -, hcl⟩
      · rcases recordOperation_eq_some.1 hrec with ⟨c, hc, rfl⟩ | ⟨-, k, -, -, rfl⟩
        · exact Or.inr (mem_unownedSiblings.1 (mem_of_head? hc)).1
        · simp at ht
      · rw [(recordReplacement_row hrep).2.1] at ht; simp at ht
      · simp at ht
      · rcases (cleanupOperation_current hcl).2.1 with h | h <;> simp [h] at ht
  · exact (groupPlan_parts h hop ht).2

/-- **A blocked logical record is left alone**: only conflicts carry its endpoints, and none
of its rows is changed. -/
theorem blocked_untouched (h : NameOK g D C) (hn : nameDecision ownerID cleanup allowed D C = none) (he : e ∈ D)
    (hu : unownedSiblings ownerID C e ≠ []) (hop : op ∈ groupPlan ownerID cleanup allowed D C)
    (ht : op.type ≠ .conflict) : op.desired.logicalKey ≠ e.logicalKey ∧ op.current.logicalKey ≠ e.logicalKey := by
  have hwf := (h.desired e he).1
  have hzero : ({} : Endpoint).logicalKey ≠ e.logicalKey := (logicalKey_ne_empty hwf).symm
  rcases mem_groupPlan.1 hop with hn' | ⟨-, hr⟩
  · rw [hn] at hn'; simp at hn'
  -- an operation whose endpoint `f` is not blocked lies in another logical record
  have hother : ∀ {f : Endpoint}, unownedSiblings ownerID C f = [] → f.logicalKey ≠ e.logicalKey :=
    fun hf hl => hu (by rw [← unownedSiblings_congr hl]; exact hf)
  have hstale : ∀ {c : Endpoint}, c ∈ stale ownerID allowed D C → c.logicalKey ≠ e.logicalKey :=
    fun hc hl => hu ((stale_row h hc).2.2.2 e he hl.symm)
  rcases mem_recordPlan.1 hr with ⟨f, hf, hrec⟩ | ⟨f, hf, hrep⟩ | ⟨f, hf, rfl⟩ | ⟨-, c, hc, hcl⟩
  · rcases recordOperation_eq_some.1 hrec with ⟨c, -, rfl⟩ | ⟨hfu, kept, hk, -, rfl⟩
    · exact absurd rfl ht
    · obtain ⟨hkC, hkey, -⟩ := head_copies hk
      refine ⟨hother hfu, ?_⟩
      rw [logicalKey_of_key (h.rows kept hkC).1 (h.desired f hf).1 hkey]
      exact hother hfu
  · obtain ⟨-, -, hdes, hs, -⟩ := recordReplacement_row hrep
    rw [hdes]
    exact ⟨hother (missing_mem.1 hf).2.1, hstale hs⟩
  · exact ⟨hother (missing_mem.1 (created_mem.1 hf).1).2.1, hzero⟩
  · have hs := hstale (leftover_row hc).1
    rcases cleanupOperation_eq_some.1 hcl with ⟨-, rfl⟩ | ⟨-, -, rfl⟩
    · exact ⟨hzero, hs⟩
    · exact ⟨hs, hs⟩

/-- A missing endpoint is replaced or created. -/
theorem missing_published (he : e ∈ missing ownerID D C) :
    ∃ op ∈ recordPlan ownerID cleanup allowed D C, op.type.publishes = true ∧ op.desired = e := by
  cases hr : recordReplacement ownerID cleanup allowed D C e with
  | some op =>
    obtain ⟨-, ht, hdes, -⟩ := recordReplacement_row hr
    exact ⟨op, mem_recordPlan.2 (Or.inr (Or.inl ⟨e, he, hr⟩)), by rw [ht]; rfl, hdes⟩
  | none =>
    have hunp : paired ownerID cleanup allowed D C e.logicalKey = false := by
      rw [Bool.eq_false_iff]
      intro hp
      obtain ⟨f, hf, hl, hs⟩ := paired_iff.1 hp
      obtain ⟨op, hop⟩ := Option.isSome_iff_exists.1 hs
      rw [recordReplacement_unique hf he hop hl, hr] at hop
      simp at hop
    exact ⟨_, mem_recordPlan.2 (Or.inr (Or.inr (Or.inl ⟨e, created_mem.2 ⟨he, hunp⟩, rfl⟩))), rfl, rfl⟩

/-- No operation is about the row that already is the desired record. -/
theorem equal_untouched (h : NameOK g D C) (hn : nameDecision ownerID cleanup allowed D C = none) (he : e ∈ D)
    {kept : Endpoint} (hk : (copies ownerID C e).head? = some kept) (heq : kept.equalRecord e = true)
    (hop : op ∈ groupPlan ownerID cleanup allowed D C) : op.current ≠ kept := by
  intro hcur
  obtain ⟨hkC, hkey, hown⟩ := head_copies hk
  by_cases hdes : op.type.destroysRow = true
  · exact groupPlan_kept h he hk hop hdes hcur
  rcases mem_groupPlan.1 hop with hn' | ⟨-, hr⟩
  · rw [hn] at hn'; simp at hn'
  rcases mem_recordPlan.1 hr with ⟨f, hf, hrec⟩ | ⟨f, -, hrep⟩ | ⟨f, -, rfl⟩ | ⟨-, c, -, hcl⟩
  · rcases recordOperation_eq_some.1 hrec with ⟨c, hc, rfl⟩ | ⟨-, k, hk', hne, rfl⟩
    · simp only at hcur
      subst hcur
      rw [(mem_unownedSiblings.1 (mem_of_head? hc)).2.2] at hown
      simp at hown
    · simp only at hcur
      subst hcur
      have hfe : f = e := eq_of_key h hf he ((head_copies hk').2.1.symm.trans hkey)
      rw [hfe, heq] at hne
      simp at hne
  · rw [(recordReplacement_row hrep).2.1] at hdes; simp [OperationType.destroysRow] at hdes
  · exact (h.rows kept hkC).1.name (by rw [← hcur])
  · rcases (cleanupOperation_current hcl).2.1 with ht | ht <;> simp [ht, OperationType.destroysRow] at hdes

/-- The cases of one desired endpoint of a name. -/
theorem record_cases (h : NameOK g D C) (he : e ∈ D) :
    (∃ op, groupPlan ownerID cleanup allowed D C = [op] ∧ op.type = .conflict ∧ op.reason ≠ reasonNotOwned) ∨
    (unownedSiblings ownerID C e ≠ [] ∧
      (∃ op ∈ groupPlan ownerID cleanup allowed D C, op.type = .conflict ∧ op.desired = e) ∧
      ∀ op ∈ groupPlan ownerID cleanup allowed D C, op.type ≠ .conflict →
        op.desired.logicalKey ≠ e.logicalKey ∧ op.current.logicalKey ≠ e.logicalKey) ∨
    (unownedSiblings ownerID C e = [] ∧ unownedConflict ownerID C e = none ∧
      ∃ op ∈ groupPlan ownerID cleanup allowed D C, op.type.publishes = true ∧ op.desired = e) ∨
    (nameDecision ownerID cleanup allowed D C = none ∧
      (∀ op ∈ groupPlan ownerID cleanup allowed D C, op.type.carries = true → op.desired ≠ e) ∧
      ∃ kept, (copies ownerID C e).head? = some kept ∧ kept.equalRecord e = true) := by
  have hplan : ∀ op, nameDecision ownerID cleanup allowed D C = some op →
      groupPlan ownerID cleanup allowed D C = [op] := by
    intro op hop; unfold groupPlan; rw [hop]
  cases hn : nameDecision ownerID cleanup allowed D C with
  | some op =>
    rcases nameDecision_type hn with ht | ht
    · rcases nameDecision_conflict hn ht with hreason | ⟨e', hD, hdes, hu⟩
      · exact Or.inl ⟨op, hplan op hn, ht, hreason⟩
      · right; left
        rw [hD, mem_singleton] at he
        subst he
        rw [hplan op hn]
        refine ⟨hu, ⟨op, mem_singleton_self op, ht, hdes⟩, ?_⟩
        intro x hx hne
        rw [mem_singleton.1 hx] at hne
        exact absurd ht hne
    · right; right; left
      obtain ⟨e', c, hD, -, hdes, -, -, -, hu, hnc, -⟩ := nameDecision_replace hn ht
      rw [hD, mem_singleton] at he
      subst he
      rw [hplan op hn]
      refine ⟨hu, unownedConflict_eq_none.2 ((nameConflict_eq_none.1 hnc).2 e (by rw [hD]; simp)), op,
        mem_singleton_self op, by rw [ht]; rfl, hdes⟩
  | none =>
    have hmem : ∀ {op}, op ∈ recordPlan ownerID cleanup allowed D C →
        op ∈ groupPlan ownerID cleanup allowed D C := fun h => mem_groupPlan.2 (Or.inr ⟨hn, h⟩)
    have hnc : unownedConflict ownerID C e = none := by
      unfold nameDecision at hn
      exact unownedConflict_eq_none.2 ((nameConflict_eq_none.1 (Option.or_eq_none_iff.1 hn).1).2 e he)
    cases hu : unownedSiblings ownerID C e with
    | cons c l =>
      right; left
      have hne : unownedSiblings ownerID C e ≠ [] := by rw [hu]; exact cons_ne_nil c l
      refine ⟨cons_ne_nil c l, ⟨_, hmem (mem_recordPlan.2 (Or.inl ⟨e, he,
        recordOperation_eq_some.2 (Or.inl ⟨c, by rw [hu]; rfl, rfl⟩)⟩)), rfl, rfl⟩, ?_⟩
      exact fun op hop ht => blocked_untouched h hn he hne hop ht
    | nil =>
      right; right
      cases hk : (copies ownerID C e).head? with
      | none =>
        left
        obtain ⟨op, hop, ht, hdes⟩ := @missing_published _ _ _ cleanup allowed _
          (missing_mem.2 ⟨he, hu, head?_eq_none_iff.1 hk⟩)
        exact ⟨rfl, hnc, op, hmem hop, ht, hdes⟩
      | some kept =>
        cases heq : kept.equalRecord e with
        | false =>
          left
          exact ⟨rfl, hnc, _, hmem (mem_recordPlan.2 (Or.inl ⟨e, he,
            recordOperation_eq_some.2 (Or.inr ⟨hu, kept, hk, heq, rfl⟩)⟩)), rfl, rfl⟩
        | true =>
          right
          refine ⟨rfl, ?_, kept, rfl, heq⟩
          intro op hop ht hdes
          rcases mem_groupPlan.1 hop with hn' | ⟨-, hr⟩
          · rw [hn] at hn'; simp at hn'
          -- it has its copy, so no pass takes it up
          have hnm : e ∉ missing ownerID D C := by
            intro hm; rw [(missing_mem.1 hm).2.2] at hk; simp at hk
          rcases mem_recordPlan.1 hr with ⟨f, -, hrec⟩ | ⟨f, hf, hrep⟩ | ⟨f, hf, rfl⟩ | ⟨-, c, -, hcl⟩
          · rw [← recordOperation_desired hrec, hdes] at hrec
            rcases recordOperation_eq_some.1 hrec with ⟨c, hc, -⟩ | ⟨-, k, hk', hne, -⟩
            · rw [hu] at hc; simp at hc
            · rw [hk, Option.some.injEq] at hk'
              rw [← hk', heq] at hne; simp at hne
          · rw [(recordReplacement_row hrep).2.2.1] at hdes; exact hnm (hdes ▸ hf)
          · exact hnm (hdes ▸ (created_mem.1 hf).1)
          · rw [cleanupOperation_carries hcl] at ht; simp at ht

theorem mem_plan_group (hd : ∀ e ∈ desired, e.WellFormed) (hc : ∀ c ∈ current, c.WellFormed) :
    (op ∈ buildWithCleanupScope rt desired current ownerID cleanup allowed ∧ op.group = g) ↔
      op ∈ groupPlan ownerID cleanup allowed (desiredOf desired g) (rowsOf current g) := by
  rw [← (buildWithCleanupScope_group rt hd hc ownerID cleanup allowed g).mem_iff, mem_filter]
  simp

theorem plan_carries (hd : ∀ e ∈ desired, e.WellFormed) (hc : ∀ c ∈ current, c.WellFormed)
    (hop : op ∈ buildWithCleanupScope rt desired current ownerID cleanup allowed) (ht : op.type.carries = true) :
    op.desired ∈ desiredOf desired op.group :=
  groupPlan_carries (fun _ h => nameDecision_desired hd h) ((mem_plan hd hc).1 hop) ht

theorem plan_carries_nodup (hd : ∀ e ∈ desired, e.WellFormed) (hc : ∀ c ∈ current, c.WellFormed) :
    (((buildWithCleanupScope rt desired current ownerID cleanup allowed).filter
      fun op => op.type.carries).map Operation.desired).Nodup := by
  apply nodup_of_groups
  · intro a ha b hb hab
    rw [mem_filter] at ha hb
    rw [← (mem_desiredOf.1 (plan_carries hd hc ha.1 ha.2)).2,
      ← (mem_desiredOf.1 (plan_carries hd hc hb.1 hb.2)).2,
      hab]
  · intro g
    have hp := ((buildWithCleanupScope_group rt hd hc ownerID cleanup allowed g).filter
      fun op => op.type.carries).map Operation.desired
    have hswap : ∀ l : List Operation, (l.filter fun op => op.type.carries).filter (fun op => op.group = g) =
        (l.filter fun op => op.group = g).filter fun op => op.type.carries :=
      fun l => by rw [filter_filter, filter_filter]; simp only [Bool.and_comm]
    rw [hswap]
    exact hp.nodup_iff.2 (groupPlan_carries_nodup (List.Nodup.of_map Endpoint.key (desiredOf_keys_nodup hd g)))

/-- An endpoint that is carried is carried by one operation. -/
theorem carried_once {l : List Operation} {r : Operation → Prop} [DecidablePred r]
    (hnd : ((l.filter fun op => op.type.carries).map Operation.desired).Nodup)
    (hr : ∀ op, r op → op.type.carries = true) (hop : op ∈ l) (hrop : r op) :
    (l.filter fun x => r x ∧ x.desired = op.desired).length = 1 := by
  induction l with
  | nil => simp at hop
  | cons x l ih =>
    by_cases hx : r x ∧ x.desired = op.desired
    · rw [filter_cons_of_pos (by exact hr x hx.1), map_cons, nodup_cons] at hnd
      have hnil : (l.filter fun x => r x ∧ x.desired = op.desired) = [] := by
        rw [filter_eq_nil_iff]
        intro z hz hzr
        simp only [decide_eq_true_eq] at hzr
        exact hnd.1 (by rw [hx.2]; exact mem_map.2 ⟨z, mem_filter.2 ⟨hz, hr z hzr.1⟩, hzr.2⟩)
      rw [filter_cons_of_pos (by simpa using hx), hnil]
      rfl
    · rw [filter_cons_of_neg (by simpa using hx)]
      have hop' : op ∈ l := by
        rcases mem_cons.1 hop with h | h
        · subst h; exact absurd ⟨hrop, rfl⟩ hx
        · exact h
      refine ih (hnd.sublist ((List.Sublist.filter _ (sublist_cons_self x l)).map _)) hop'

theorem mem_desiredOf_self (hd : ∀ e ∈ desired, e.WellFormed) (hkeys : (desired.map Endpoint.key).Nodup)
    (he : e ∈ desired) : e ∈ desiredOf desired e.mutationGroupKey := by
  obtain ⟨e', he', hk⟩ := exists_desiredOf hd he
  have : e' = e := inj_on_of_nodup_map hkeys (mem_of_mem_desiredValues hd (mem_desiredOf.1 he').1) he hk
  rw [← this] at he' ⊢
  exact he'

/-! The cases exclude each other in any plan. -/

theorem not_conflict_and_mutated {plan : List Operation} (he : e.WellFormed)
    (h1 : NameConflict plan e ∨ RecordConflict plan current ownerID e) (h2 : Mutated plan current ownerID e) :
    False := by
  obtain ⟨hlen, -, hown, -⟩ := h2
  rcases h1 with h | ⟨-, ⟨c, hc, hl, hun⟩, -⟩
  · obtain ⟨op, hop⟩ := length_eq_one_iff.1 hlen
    have hm : op ∈ plan.filter fun op => op.type.publishes = true ∧ op.desired = e := by
      rw [hop]; exact mem_singleton_self op
    rw [mem_filter, decide_eq_true_eq] at hm
    have ht := h.1.2 op hm.1 (Operation.group_of_desired he hm.2.2)
    rw [ht] at hm; simp [OperationType.publishes] at hm
  · rw [hown c hc hl] at hun; simp at hun

theorem not_conflict_and_satisfied {plan : List Operation}
    (h1 : NameConflict plan e ∨ RecordConflict plan current ownerID e) (h2 : Satisfied plan current ownerID e) :
    False := by
  rcases h1 with h | ⟨hlen, -⟩
  · exact h2.2.1 h
  · obtain ⟨op, hop⟩ := length_eq_one_iff.1 hlen
    have hm : op ∈ plan.filter fun op => op.type = .conflict ∧ op.desired = e := by
      rw [hop]; exact mem_singleton_self op
    rw [mem_filter, decide_eq_true_eq] at hm
    exact h2.1 op hm.1 (by rw [hm.2.1]; rfl) hm.2.2

theorem not_mutated_and_satisfied {plan : List Operation} (h1 : Mutated plan current ownerID e)
    (h2 : Satisfied plan current ownerID e) : False := by
  obtain ⟨op, hop⟩ := length_eq_one_iff.1 h1.1
  have hm : op ∈ plan.filter fun op => op.type.publishes = true ∧ op.desired = e := by
    rw [hop]; exact mem_singleton_self op
  rw [mem_filter, decide_eq_true_eq] at hm
  exact h2.1 op hm.1 (by simp [OperationType.carries, hm.2.1]) hm.2.2

theorem exactlyOne_of_case {plan : List Operation} (he : e.WellFormed)
    (h : (NameConflict plan e ∨ RecordConflict plan current ownerID e) ∨ Mutated plan current ownerID e ∨
      Satisfied plan current ownerID e) :
    ExactlyOne (NameConflict plan e ∨ RecordConflict plan current ownerID e) (Mutated plan current ownerID e)
      (Satisfied plan current ownerID e) := by
  rcases h with h | h | h
  · exact Or.inl ⟨h, fun h' => not_conflict_and_mutated he h h', fun h' => not_conflict_and_satisfied h h'⟩
  · exact Or.inr (Or.inl ⟨fun h' => not_conflict_and_mutated he h' h, h,
      fun h' => not_mutated_and_satisfied h h'⟩)
  · exact Or.inr (Or.inr ⟨fun h' => not_conflict_and_satisfied h' h, fun h' => not_mutated_and_satisfied h' h, h⟩)

/-! The cases of a plan follow from those of a name. -/

section Cases

variable (hd : ∀ e ∈ desired, e.WellFormed) (hc : TableOK current)
include hd hc

/-- The whole name is in conflict. -/
theorem nameConflict_of_group
    (hplan : groupPlan ownerID cleanup allowed (desiredOf desired e.mutationGroupKey)
      (rowsOf current e.mutationGroupKey) = [op])
    (ht : op.type = .conflict) (hreason : op.reason ≠ reasonNotOwned) :
    NameConflict (buildWithCleanupScope rt desired current ownerID cleanup allowed) e := by
  have hgroup := buildWithCleanupScope_group rt hd hc.wf ownerID cleanup allowed e.mutationGroupKey
  rw [hplan] at hgroup
  refine ⟨⟨hgroup.length_eq, ?_⟩, ?_⟩
  all_goals
    intro x hx hg
    have := (mem_plan_group hd hc.wf).1 ⟨hx, hg⟩
    rw [hplan, mem_singleton] at this
    subst this
    assumption

/-- The record is in conflict, and operations of other names do not touch it either. -/
theorem recordConflict_of_group (hwf : e.WellFormed)
    (hu : unownedSiblings ownerID (rowsOf current e.mutationGroupKey) e ≠ [])
    (hop : op ∈ groupPlan ownerID cleanup allowed (desiredOf desired e.mutationGroupKey)
      (rowsOf current e.mutationGroupKey))
    (ht : op.type = .conflict) (hdes : op.desired = e)
    (hrest : ∀ x ∈ groupPlan ownerID cleanup allowed (desiredOf desired e.mutationGroupKey)
      (rowsOf current e.mutationGroupKey),
      x.type ≠ .conflict → x.desired.logicalKey ≠ e.logicalKey ∧ x.current.logicalKey ≠ e.logicalKey) :
    RecordConflict (buildWithCleanupScope rt desired current ownerID cleanup allowed) current ownerID e := by
  obtain ⟨c, hcu⟩ := exists_mem_of_ne_nil _ hu
  obtain ⟨hcC, hcl, hco⟩ := mem_unownedSiblings.1 hcu
  refine ⟨?_, ⟨c, (mem_rowsOf.1 hcC).1, hcl, hco⟩, ?_⟩
  · rw [← hdes]
    exact carried_once (plan_carries_nodup hd hc.wf) (fun x hx => by rw [hx]; rfl)
      ((mem_plan_group hd hc.wf).2 hop).1 ht
  · intro x hx hxt
    have hparts := groupPlan_parts (nameOK hd hc x.group) ((mem_plan hd hc.wf).1 hx) hxt
    have hin : x.group = e.mutationGroupKey →
        x.desired.logicalKey ≠ e.logicalKey ∧ x.current.logicalKey ≠ e.logicalKey :=
      fun hg => hrest x ((mem_plan_group hd hc.wf).1 ⟨hx, hg⟩) hxt
    constructor
    · intro hl
      rcases hparts.1 with ⟨-, h0⟩ | ⟨hxwf, hxg⟩
      · rw [h0] at hl; exact logicalKey_ne_empty hwf hl.symm
      · exact (hin (hxg.symm.trans (group_of_logicalKey hxwf hwf hl))).1 hl
    · intro hl
      rcases hparts.2 with h0 | hxC
      · rw [h0] at hl; exact logicalKey_ne_empty hwf hl.symm
      · obtain ⟨hxm, hxg⟩ := mem_rowsOf.1 hxC
        exact (hin (hxg.symm.trans (group_of_logicalKey (hc.wf _ hxm) hwf hl))).2 hl

/-- The endpoint is published. -/
theorem mutated_of_group (hwf : e.WellFormed)
    (hu : unownedSiblings ownerID (rowsOf current e.mutationGroupKey) e = [])
    (hun : unownedConflict ownerID (rowsOf current e.mutationGroupKey) e = none)
    (hop : op ∈ groupPlan ownerID cleanup allowed (desiredOf desired e.mutationGroupKey)
      (rowsOf current e.mutationGroupKey))
    (ht : op.type.publishes = true) (hdes : op.desired = e) :
    Mutated (buildWithCleanupScope rt desired current ownerID cleanup allowed) current ownerID e := by
  have hnd := @plan_carries_nodup rt _ _ ownerID cleanup allowed hd hc.wf
  have hopp := ((@mem_plan_group rt _ _ _ _ _ _ _ hd hc.wf).2 hop).1
  refine ⟨?_, ?_, ?_, ?_⟩
  · rw [← hdes]
    exact carried_once hnd (fun x hx => by simp [OperationType.carries, hx]) hopp ht
  · -- a conflict that carried it too would be a second operation with this endpoint
    intro x hx hxt hxd
    have := inj_on_of_nodup_map hnd (mem_filter.2 ⟨hx, by rw [hxt]; rfl⟩)
      (mem_filter.2 ⟨hopp, by simp [OperationType.carries, ht]⟩) (hxd.trans hdes.symm)
    rw [← this, hxt] at ht; simp [OperationType.publishes] at ht
  · exact fun c hcm hl => unownedSiblings_eq_nil.1 hu c
      (mem_rowsOf.2 ⟨hcm, group_of_logicalKey (hc.wf c hcm) hwf hl⟩) hl
  · exact fun c hcm hg ho => unownedConflict_eq_none.1 hun c (mem_rowsOf.2 ⟨hcm, hg⟩) ho

/-- A conflict of a name that is decided record by record has the other reason. -/
theorem not_nameConflict_of_group
    (hn : nameDecision ownerID cleanup allowed (desiredOf desired e.mutationGroupKey)
      (rowsOf current e.mutationGroupKey) = none) :
    ¬ NameConflict (buildWithCleanupScope rt desired current ownerID cleanup allowed) e := by
  rintro ⟨⟨hlen, honly⟩, hreason⟩
  obtain ⟨x, hx⟩ := length_eq_one_iff.1 hlen
  obtain ⟨hxm, hg⟩ := mem_filter.1 (hx ▸ mem_singleton_self x)
  rw [decide_eq_true_eq] at hg
  have hxt := honly x hxm hg
  rcases mem_groupPlan.1 ((mem_plan_group hd hc.wf).1 ⟨hxm, hg⟩) with hn' | ⟨-, hr⟩
  · rw [hn] at hn'; simp at hn'
  rcases mem_recordPlan.1 hr with ⟨f, -, hrec⟩ | ⟨f, -, hrep⟩ | ⟨f, -, rfl⟩ | ⟨-, c, -, hcl⟩
  · rcases recordOperation_eq_some.1 hrec with ⟨c, -, rfl⟩ | ⟨-, k, -, -, rfl⟩
    · exact hreason _ hxm hg rfl
    · simp at hxt
  · rw [(recordReplacement_row hrep).2.1] at hxt; simp at hxt
  · simp at hxt
  · rcases (cleanupOperation_current hcl).2.1 with h | h <;> simp [h] at hxt

/-- No operation of any name is about the row that is kept for an endpoint. -/
theorem hasRow_of_group {kept : Endpoint} (heD : e ∈ desiredOf desired e.mutationGroupKey)
    (hn : nameDecision ownerID cleanup allowed (desiredOf desired e.mutationGroupKey)
      (rowsOf current e.mutationGroupKey) = none)
    (hk : (copies ownerID (rowsOf current e.mutationGroupKey) e).head? = some kept)
    (heq : kept.equalRecord e = true) :
    HasRow (buildWithCleanupScope rt desired current ownerID cleanup allowed) current ownerID e := by
  obtain ⟨hkC, hkey, hown⟩ := head_copies hk
  refine ⟨kept, (mem_rowsOf.1 hkC).1, hown, hkey, heq, fun x hx hcur => ?_⟩
  by_cases hg : x.group = e.mutationGroupKey
  · exact equal_untouched (nameOK hd hc _) hn heD hk heq ((mem_plan_group hd hc.wf).1 ⟨hx, hg⟩) hcur
  · rcases groupPlan_current (nameOK hd hc x.group) ((mem_plan hd hc.wf).1 hx) with h0 | hxC
    · exact (hc.wf kept (mem_rowsOf.1 hkC).1).name (by rw [← hcur, h0])
    · rw [hcur] at hxC
      exact hg ((mem_rowsOf.1 hxC).2.symm.trans (mem_rowsOf.1 hkC).2)

end Cases

/-- **Every desired endpoint is accounted for exactly once.** -/
theorem plan_covers_desired (rt : Runtime) (desired current : List Endpoint) (ownerID : String)
    (cleanup : CleanupPolicy) (allowed : Endpoint → Bool) (hd : ∀ e ∈ desired, e.WellFormed)
    (hkeys : (desired.map Endpoint.key).Nodup) (hc : TableOK current) (e : Endpoint) (he : e ∈ desired) :
    let plan := buildWithCleanupScope rt desired current ownerID cleanup allowed
    ExactlyOne (NameConflict plan e ∨ RecordConflict plan current ownerID e)
      (Mutated plan current ownerID e) (Satisfied plan current ownerID e) := by
  intro plan
  have hwf := hd e he
  have heD := mem_desiredOf_self hd hkeys he
  refine exactlyOne_of_case hwf ?_
  rcases @record_cases _ _ ownerID cleanup allowed _ _ (nameOK hd hc e.mutationGroupKey) heD with
    ⟨op, hplan, ht, hreason⟩ | ⟨hu, ⟨op, hop, ht, hdes⟩, hrest⟩ | ⟨hu, hun, op, hop, ht, hdes⟩ |
      ⟨hn, hcarry, kept, hk, heq⟩
  · exact Or.inl (Or.inl (nameConflict_of_group hd hc hplan ht hreason))
  · exact Or.inl (Or.inr (recordConflict_of_group hd hc hwf hu hop ht hdes hrest))
  · exact Or.inr (Or.inl (mutated_of_group hd hc hwf hu hun hop ht hdes))
  · refine Or.inr (Or.inr ⟨fun x hx hxt hxd => ?_, not_nameConflict_of_group hd hc hn,
      hasRow_of_group hd hc heD hn hk heq⟩)
    exact hcarry x ((mem_plan_group hd hc.wf).1 ⟨hx, Operation.group_of_desired hwf hxd⟩) hxt hxd

/-- A satisfied record next to a missing one and a blocked one, all of one name. -/
theorem plan_covers_desired_mixed :
    let a : Endpoint := { dnsName := "www", recordType := "A", targets := ["192.0.2.1"], zone := "lan" }
    let b : Endpoint := { dnsName := "www", recordType := "AAAA", targets := ["2001:db8::1"], zone := "lan" }
    let c : Endpoint := { b with targets := ["2001:db8::2"] }
    let rows := [{ a with targets := ["192.0.2.9"], ownerID := "you", providerID := "1" },
      { b with ownerID := "me", providerID := "2" }]
    let plan := buildWithCleanupScope .plain [a, b, c] rows "me" .delete fun _ => true
    plan.map (fun op => (op.type, op.desired)) = [(.conflict, a), (.create, c)] ∧
      ExactlyOne (NameConflict plan b ∨ RecordConflict plan rows "me" b) (Mutated plan rows "me" b)
        (Satisfied plan rows "me" b) := by
  intro a b c rows plan
  exact ⟨by decide +kernel, plan_covers_desired .plain [a, b, c] rows "me" .delete (fun _ => true)
    (by decide +kernel) (by decide +kernel) (by decide +kernel) b (by decide +kernel)⟩

/-- The cases do not split up when any single conflict at the name counts as the endpoint's
conflict. If an endpoint is satisfied when no operation carries it, or none touches its
logical record, then `b` is in two cases as long as the conflict of `a` is alone; if it is
satisfied when no such operation is at its name, then `b` is in no case once `c` is created
as well. -/
theorem plan_covers_desired_not_onlyConflict :
    let a : Endpoint := { dnsName := "www", recordType := "A", targets := ["192.0.2.1"], zone := "lan" }
    let b : Endpoint := { dnsName := "www", recordType := "AAAA", targets := ["2001:db8::1"], zone := "lan" }
    let c : Endpoint := { b with targets := ["2001:db8::2"] }
    let rows := [{ a with targets := ["192.0.2.9"], ownerID := "you", providerID := "1" },
      { b with ownerID := "me", providerID := "2" }]
    let plan := buildWithCleanupScope .plain [a, b] rows "me" .delete fun _ => true
    let plan' := buildWithCleanupScope .plain [a, b, c] rows "me" .delete fun _ => true
    (∀ e ∈ [a, b, c], e.WellFormed) ∧ ([a, b, c].map Endpoint.key).Nodup ∧ TableOK rows ∧
    ¬ ExactlyOne (OnlyConflict plan b ∨ RecordConflict plan rows "me" b) (Mutated plan rows "me" b)
      ((∀ op ∈ plan, op.type.carries = true → op.desired ≠ b) ∧ HasRow plan rows "me" b) ∧
    ¬ ExactlyOne (OnlyConflict plan b ∨ RecordConflict plan rows "me" b) (Mutated plan rows "me" b)
      ((∀ op ∈ plan, op.type.carries = true → op.desired.logicalKey ≠ b.logicalKey) ∧ HasRow plan rows "me" b) ∧
    ¬ ExactlyOne (OnlyConflict plan' b ∨ RecordConflict plan' rows "me" b) (Mutated plan' rows "me" b)
      ((∀ op ∈ plan', op.type.carries = true → op.group ≠ b.mutationGroupKey) ∧ HasRow plan' rows "me" b) := by
  decide +kernel

end FortigateDns
