import FortigateDns.Proof.NamePlan

/-!
# Row accounting and ownership safety of the planner

What the operations of one name do to its rows, and then the same for a whole plan
(`plan_accounts_rows`).
-/

namespace FortigateDns

open Go GoMap List

variable {rt : Runtime} {desired current D C : List Endpoint} {ownerID : String} {cleanup : CleanupPolicy}
variable {allowed : Endpoint → Bool} {g : String} {op : Operation}
variable {e : Endpoint}

/-- **The row of an operation.** -/
theorem groupPlan_row (hop : op ∈ groupPlan ownerID cleanup allowed D C) (hm : op.type.mutatesRow = true) :
    op.current ∈ C ∧ ownedBy op.current ownerID = true ∧
      (op.type.destroysRow = true → allowed op.current = true) := by
  rcases mem_groupPlan.1 hop with hn | ⟨-, hr⟩
  · rcases nameDecision_type hn with ht | ht
    · rw [ht] at hm; simp [OperationType.mutatesRow] at hm
    · obtain ⟨e, c, -, hown, -, hcur, -, hall, -⟩ := nameDecision_replace hn ht
      have hc : c ∈ (partitionOwned C ownerID).1 := by rw [hown]; exact mem_singleton_self c
      rw [hcur]
      exact ⟨(mem_owned.1 hc).1, (mem_owned.1 hc).2, fun _ => hall⟩
  · rcases mem_recordPlan.1 hr with ⟨e, -, hrec⟩ | ⟨e, -, hrep⟩ | ⟨e, -, rfl⟩ | ⟨-, c, hc, hcl⟩
    · rcases recordOperation_eq_some.1 hrec with ⟨c, -, rfl⟩ | ⟨-, kept, hk, -, rfl⟩
      · simp [OperationType.mutatesRow] at hm
      · obtain ⟨h1, -, h2⟩ := head_copies hk
        exact ⟨h1, h2, fun hd => by simp [OperationType.destroysRow] at hd⟩
    · obtain ⟨-, -, -, hs, -⟩ := recordReplacement_row hrep
      obtain ⟨h1, h2, h3⟩ := stale_owned hs
      exact ⟨h1, h2, fun _ => h3⟩
    · simp [OperationType.mutatesRow] at hm
    · rw [(cleanupOperation_current hcl).1]
      obtain ⟨h1, h2, h3⟩ := stale_owned (leftover_row hc).1
      exact ⟨h1, h2, fun _ => h3⟩

/-- A pass emits distinct values when what it emits determines the element. -/
theorem nodup_pass {α β γ : Type} {f : α → Option β} {q : β → Bool} {v : β → γ} {l : List α} (hl : l.Nodup)
    (hinj : ∀ a ∈ l, ∀ a' ∈ l, ∀ b b', f a = some b → f a' = some b' → q b = true → q b' = true →
      v b = v b' → a = a') : (((l.filterMap f).filter q).map v).Nodup := by
  induction l with
  | nil => exact nodup_nil
  | cons a l ih =>
    rw [nodup_cons] at hl
    have ih := ih hl.2 (fun x hx y hy => hinj x (mem_cons_of_mem _ hx) y (mem_cons_of_mem _ hy))
    cases hf : f a with
    | none => rw [filterMap_cons_none hf]; exact ih
    | some b =>
      rw [filterMap_cons_some hf, filter_cons]
      split
      · rename_i hq
        rw [map_cons, nodup_cons]
        refine ⟨fun hmem => ?_, ih⟩
        obtain ⟨b', hb', hv⟩ := mem_map.1 hmem
        rw [mem_filter] at hb'
        obtain ⟨a', ha', hfa⟩ := mem_filterMap.1 hb'.1
        have := hinj a mem_cons_self a' (mem_cons_of_mem _ ha') b b' hf hfa hq hb'.2 hv.symm
        exact hl.1 (this ▸ ha')
      · exact ih

theorem updates_current (h : recordOperation ownerID C e = some op) (hm : op.type.mutatesRow = true) :
    (copies ownerID C e).head? = some op.current := by
  rcases recordOperation_eq_some.1 h with ⟨c, -, rfl⟩ | ⟨-, kept, hk, -, rfl⟩
  · simp [OperationType.mutatesRow] at hm
  · exact hk

theorem recordPlan_current_nodup (h : NameOK g D C) :
    (((recordPlan ownerID cleanup allowed D C).filter fun op => op.type.mutatesRow).map
      Operation.current).Nodup := by
  have hD : D.Nodup := List.Nodup.of_map Endpoint.key h.keys
  have hM : (missing ownerID D C).Nodup := hD.filter _
  unfold recordPlan
  simp only [filter_append, map_append]
  have hcreate : ((created ownerID cleanup allowed D C).map
      (fun e => ({ type := .create, desired := e, reason := "record is missing" } : Operation))).filter
      (fun op => op.type.mutatesRow) = [] := by
    rw [filter_eq_nil_iff]
    intro op hop
    obtain ⟨e, -, rfl⟩ := mem_map.1 hop
    simp [OperationType.mutatesRow]
  rw [hcreate]
  simp only [map_nil, append_nil]
  -- the rows of the three kinds of operation
  have hupd : ∀ c ∈ ((D.filterMap (recordOperation ownerID C)).filter fun op => op.type.mutatesRow).map
      Operation.current, ∃ e ∈ D, (copies ownerID C e).head? = some c := by
    intro c hc
    obtain ⟨op, hop, rfl⟩ := mem_map.1 hc
    rw [mem_filter] at hop
    obtain ⟨e, he, hrec⟩ := mem_filterMap.1 hop.1
    exact ⟨e, he, updates_current hrec hop.2⟩
  have hrep : ∀ c ∈ (((missing ownerID D C).filterMap (recordReplacement ownerID cleanup allowed D C)).filter
      fun op => op.type.mutatesRow).map Operation.current,
      ∃ e ∈ missing ownerID D C, ∃ op, recordReplacement ownerID cleanup allowed D C e = some op ∧
        op.current = c := by
    intro c hc
    obtain ⟨op, hop, rfl⟩ := mem_map.1 hc
    rw [mem_filter] at hop
    obtain ⟨e, he, hrec⟩ := mem_filterMap.1 hop.1
    exact ⟨e, he, op, hrec, rfl⟩
  have hcln : ∀ c ∈ ((cleanupOperations ownerID cleanup allowed D C).filter fun op => op.type.mutatesRow).map
      Operation.current, c ∈ leftover ownerID cleanup allowed D C := by
    intro c hc
    obtain ⟨op, hop, rfl⟩ := mem_map.1 hc
    rw [mem_filter] at hop
    unfold cleanupOperations at hop
    split at hop
    · obtain ⟨c, hc, hcl⟩ := mem_filterMap.1 hop.1
      rw [(cleanupOperation_current hcl).1]; exact hc
    · simp at hop
  rw [nodup_append, nodup_append]
  refine ⟨⟨?_, ?_, ?_⟩, ?_, ?_⟩
  · -- updates: the keys of the rows are those of the desired endpoints
    refine nodup_pass hD ?_
    intro e he f hf op1 op2 h1 h2 m1 m2 hcur
    have k1 := (head_copies (updates_current h1 m1)).2.1
    have k2 := (head_copies (updates_current h2 m2)).2.1
    rw [hcur] at k1
    exact eq_of_key h he hf (k1.symm.trans k2)
  · -- replacements: at most one per logical record
    refine nodup_pass hM ?_
    intro e he f hf op1 op2 h1 h2 _ _ hcur
    have l1 := (recordReplacement_row h1).2.2.2.2
    have l2 := (recordReplacement_row h2).2.2.2.2
    rw [hcur] at l1
    exact recordReplacement_unique he hf h1 (l1.symm.trans l2)
  · intro c hc c' hc' heq
    obtain ⟨e, he, hk⟩ := hupd c hc
    obtain ⟨f, -, op', hop', hcur⟩ := hrep c' hc'
    refine @kept_not_stale _ _ _ allowed _ h _ _ he hk ?_
    rw [heq, ← hcur]
    exact (recordReplacement_row hop').2.2.2.1
  · -- cleanup: stale rows are listed once
    unfold cleanupOperations
    split
    · refine nodup_pass ((stale_nodup h).filter _) ?_
      intro c _ c' _ op1 op2 h1 h2 _ _ hcur
      rw [← (cleanupOperation_current h1).1, ← (cleanupOperation_current h2).1, hcur]
    · exact nodup_nil
  · intro c hc c' hc' heq
    have hlo := hcln c' hc'
    rw [← heq] at hlo
    rcases mem_append.1 hc with hc | hc
    · obtain ⟨e, he, hk⟩ := hupd c hc
      exact kept_not_stale h he hk (leftover_row hlo).1
    · obtain ⟨e, he, op', hop', hcur⟩ := hrep c hc
      rw [← hcur] at hlo
      exact replaced_not_leftover he hop' hlo

/-- No row is changed twice. -/
theorem groupPlan_current_nodup (h : NameOK g D C) :
    (((groupPlan ownerID cleanup allowed D C).filter fun op => op.type.mutatesRow).map
      Operation.current).Nodup := by
  unfold groupPlan
  split
  · rename_i op _
    by_cases hm : op.type.mutatesRow = true <;> simp [hm]
  · exact recordPlan_current_nodup h

theorem needsCNAMETargetReplacement_single {c : Endpoint} :
    needsCNAMETargetReplacement [e] [c] = true ↔
      e.recordType = recordCNAME ∧ c.recordType = recordCNAME ∧ c.key ≠ e.key := by
  unfold needsCNAMETargetReplacement
  by_cases h1 : e.recordType = recordCNAME <;> by_cases h2 : c.key = e.key <;> simp [h1, h2]

/-- The row kept for a desired key is not destroyed. -/
theorem groupPlan_kept (h : NameOK g D C) {kept : Endpoint} (he : e ∈ D)
    (hk : (copies ownerID C e).head? = some kept) (hop : op ∈ groupPlan ownerID cleanup allowed D C)
    (hdes : op.type.destroysRow = true) : op.current ≠ kept := by
  intro hcur
  obtain ⟨hkC, hkey, hkown⟩ := head_copies hk
  rcases mem_groupPlan.1 hop with hn | ⟨-, hr⟩
  · rcases nameDecision_type hn with ht | ht
    · rw [ht] at hdes; simp [OperationType.destroysRow] at hdes
    · -- the replaced row differs from the endpoint in type or key
      obtain ⟨e', c, hD, -, -, hc, -, -, -, -, htr⟩ := nameDecision_replace hn ht
      rw [hD, mem_singleton] at he
      subst he
      rw [hc] at hcur
      subst hcur
      have htype := ((key_eq_iff (h.rows c hkC).1 (h.desired e (by rw [hD]; simp)).1).1 hkey).2.2.1
      rcases htr with ⟨htt, -⟩ | ⟨-, htt⟩
      · exact (needsCNAMETargetReplacement_single.1 htt).2.2 hkey
      · simp [cnameTypesConflict, htype] at htt
  · rcases mem_recordPlan.1 hr with ⟨f, -, hrec⟩ | ⟨f, -, hrep⟩ | ⟨f, -, rfl⟩ | ⟨-, c, hc, hcl⟩
    · rcases recordOperation_eq_some.1 hrec with ⟨c, -, rfl⟩ | ⟨-, k, -, -, rfl⟩ <;>
        simp [OperationType.destroysRow] at hdes
    · exact kept_not_stale h he hk (hcur ▸ (recordReplacement_row hrep).2.2.2.1)
    · simp [OperationType.destroysRow] at hdes
    · rw [(cleanupOperation_current hcl).1] at hcur
      exact kept_not_stale h he hk (hcur ▸ (leftover_row hc).1)

/-- Under the keep policy only a change between CNAME and another type overwrites a row. -/
theorem groupPlan_keep (hop : op ∈ groupPlan ownerID .keep allowed D C) :
    op.type ≠ .delete ∧ op.type ≠ .deactivate ∧
      (op.type = .replace → cnameTypesConflict op.desired.recordType op.current.recordType = true) := by
  rcases mem_groupPlan.1 hop with hn | ⟨-, hr⟩
  · rcases nameDecision_type hn with ht | ht
    · simp [ht]
    · obtain ⟨e, c, -, -, hdes, hcur, -, -, -, -, htr⟩ := nameDecision_replace hn ht
      rcases htr with ⟨-, hpol⟩ | ⟨-, hconf⟩
      · simp at hpol
      · simp [ht, hdes, hcur, hconf]
  · rcases mem_recordPlan.1 hr with ⟨e, -, hrec⟩ | ⟨e, -, hrep⟩ | ⟨e, -, rfl⟩ | ⟨-, c, -, hcl⟩
    · rcases recordOperation_eq_some.1 hrec with ⟨c, -, rfl⟩ | ⟨-, kept, -, -, rfl⟩ <;> simp
    · exact absurd (recordReplacement_row hrep).1 (by simp)
    · simp
    · exact absurd rfl (cleanupOperation_current hcl).2.2

/-- Distinctness within each name is distinctness in the whole plan. -/
theorem nodup_of_groups {γ : Type} {v : Operation → γ} {l : List Operation}
    (hgroup : ∀ a ∈ l, ∀ b ∈ l, v a = v b → a.group = b.group)
    (hnd : ∀ g, ((l.filter fun op => op.group = g).map v).Nodup) : (l.map v).Nodup := by
  induction l with
  | nil => exact nodup_nil
  | cons a l ih =>
    rw [map_cons, nodup_cons]
    constructor
    · intro hmem
      obtain ⟨b, hb, hv⟩ := mem_map.1 hmem
      have hg := hgroup b (mem_cons_of_mem _ hb) a mem_cons_self hv
      have h := hnd a.group
      rw [filter_cons_of_pos (by simp), map_cons, nodup_cons] at h
      exact h.1 (mem_map.2 ⟨b, mem_filter.2 ⟨hb, by simpa using hg⟩, hv⟩)
    · refine ih (fun x hx y hy => hgroup x (mem_cons_of_mem _ hx) y (mem_cons_of_mem _ hy)) ?_
      intro g
      exact (hnd g).sublist ((List.Sublist.filter _ (sublist_cons_self a l)).map _)

/-- An operation on a row is about an owned row of the table at the operation's name. -/
theorem plan_row (hd : ∀ e ∈ desired, e.WellFormed) (hc : ∀ c ∈ current, c.WellFormed)
    (hop : op ∈ buildWithCleanupScope rt desired current ownerID cleanup allowed)
    (hm : op.type.mutatesRow = true) :
    op.current ∈ current ∧ op.current.mutationGroupKey = op.group ∧ ownedBy op.current ownerID = true ∧
      (op.type.destroysRow = true → allowed op.current = true) := by
  obtain ⟨h1, h2, h3⟩ := groupPlan_row ((mem_plan hd hc).1 hop) hm
  exact ⟨(mem_rowsOf.1 h1).1, (mem_rowsOf.1 h1).2, h2, h3⟩

theorem plan_current_nodup (hd : ∀ e ∈ desired, e.WellFormed) (hc : TableOK current) :
    (((buildWithCleanupScope rt desired current ownerID cleanup allowed).filter
      fun op => op.type.mutatesRow).map Operation.current).Nodup := by
  apply nodup_of_groups
  · intro a ha b hb hab
    rw [mem_filter] at ha hb
    rw [← (plan_row hd hc.wf ha.1 ha.2).2.1, ← (plan_row hd hc.wf hb.1 hb.2).2.1, hab]
  · intro g
    have hp := ((buildWithCleanupScope_group rt hd hc.wf ownerID cleanup allowed g).filter
      fun op => op.type.mutatesRow).map Operation.current
    have hswap : ∀ l : List Operation, (l.filter fun op => op.type.mutatesRow).filter (fun op => op.group = g) =
        (l.filter fun op => op.group = g).filter fun op => op.type.mutatesRow :=
      fun l => by rw [filter_filter, filter_filter]; simp only [Bool.and_comm]
    rw [hswap]
    exact hp.nodup_iff.2 (groupPlan_current_nodup (nameOK hd hc g))

/-- Every desired endpoint has a planned value with its key. -/
theorem exists_desiredOf (hd : ∀ e ∈ desired, e.WellFormed) (he : e ∈ desired) :
    ∃ e' ∈ desiredOf desired e.mutationGroupKey, e'.key = e.key := by
  obtain ⟨e', he', hk⟩ := (lookup_indexDesired_isSome_iff hd).1 (lookup_indexDesired_isSome hd he)
  exact ⟨e', mem_desiredOf.2 ⟨he', group_of_key (wf_of_mem_desiredValues hd he') (hd e he) hk⟩, hk⟩

/-- **Row accounting of the planner.** -/
theorem plan_accounts_rows (rt : Runtime) (desired current : List Endpoint) (ownerID : String)
    (cleanup : CleanupPolicy) (allowed : Endpoint → Bool) (hd : ∀ e ∈ desired, e.WellFormed)
    (hc : TableOK current) :
    let plan := buildWithCleanupScope rt desired current ownerID cleanup allowed
    (∀ op ∈ plan, op.type.mutatesRow = true →
      ∃ c ∈ current, op.current = c.normalize ∧ ownedBy c ownerID = true) ∧
    ((plan.filter fun op => op.type.mutatesRow).map Operation.current).Nodup ∧
    (∀ op ∈ plan, op.type.destroysRow = true → allowed op.current = true) ∧
    (cleanup = .keep → ∀ op ∈ plan, op.type ≠ .delete ∧ op.type ≠ .deactivate ∧
      (op.type = .replace → cnameTypesConflict op.desired.recordType op.current.recordType = true)) ∧
    (∀ e ∈ desired, ∀ kept, (partitionOwned (current.filter fun c => c.key = e.key) ownerID).1.head? = some kept →
      ∀ op ∈ plan, op.type.destroysRow = true → op.current ≠ kept) := by
  intro plan
  have hmut : ∀ t : OperationType, t.destroysRow = true → t.mutatesRow = true := by
    intro t; cases t <;> simp [OperationType.destroysRow, OperationType.mutatesRow]
  refine ⟨?_, plan_current_nodup hd hc, ?_, ?_, ?_⟩
  · intro op hop hm
    obtain ⟨h1, -, h2, -⟩ := plan_row hd hc.wf hop hm
    exact ⟨op.current, h1, (hc.wf _ h1).fixed.symm, h2⟩
  · intro op hop hdes
    exact (plan_row hd hc.wf hop (hmut _ hdes)).2.2.2 hdes
  · intro hkeep op hop
    subst hkeep
    exact groupPlan_keep ((mem_plan hd hc.wf).1 hop)
  · intro e he kept hk op hop hdes hcur
    obtain ⟨e', he', hkey⟩ := exists_desiredOf hd he
    have hg := (plan_row hd hc.wf hop (hmut _ hdes)).2.1
    have hcop : (copies ownerID (rowsOf current e.mutationGroupKey) e').head? = some kept := by
      unfold copies
      rw [hkey, filter_key_rowsOf hc.wf (hd e he)]; exact hk
    have hgk : op.group = e.mutationGroupKey := by
      rw [← hg, hcur]; exact (mem_rowsOf.1 (head_copies hcop).1).2
    have hop' := (mem_plan hd hc.wf).1 hop
    rw [hgk] at hop'
    exact groupPlan_kept (nameOK hd hc _) he' hcop hop' hdes hcur

/-- **Owners are compared without surrounding blanks**: the row of an update may have another owner than the given
one, in the letter. -/
theorem plan_accounts_rows_padded_owner :
    let e : Endpoint := { dnsName := "www", recordType := "A", targets := ["192.0.2.1"], zone := "lan" }
    let rows := [{ e with ttl := 60, ownerID := " me", providerID := "7" }]
    e.WellFormed ∧ TableOK rows ∧
      ∃ op ∈ buildWithCleanupScope .plain [e] rows "me" .delete fun _ => true, op.type = .update ∧
        ∀ c ∈ rows, op.current = c.normalize → c.ownerID ≠ "me" := by
  decide +kernel

/-- Two owned copies of a desired record and an unowned row of another name: only the second
copy is destroyed. -/
theorem plan_accounts_rows_duplicate :
    let e : Endpoint := { dnsName := "www", recordType := "A", targets := ["192.0.2.1"], zone := "lan" }
    let rows := [{ e with ownerID := "me", providerID := "7" }, { e with ownerID := "me", providerID := "3" },
      { e with dnsName := "mail", ownerID := "you", providerID := "5" }]
    let plan := buildWithCleanupScope .plain [e] rows "me" .delete fun _ => true
    (plan.map fun op => (op.type, op.current.providerID)) = [(.delete, "7")] ∧
      ∀ op ∈ plan, op.type.destroysRow = true → op.current ≠ { e with ownerID := "me", providerID := "3" } := by
  intro e rows plan
  exact ⟨by decide +kernel, (plan_accounts_rows .plain [e] rows "me" .delete (fun _ => true)
    (by decide +kernel) (by decide +kernel)).2.2.2.2 e (by decide +kernel) _ (by decide +kernel)⟩

end FortigateDns
