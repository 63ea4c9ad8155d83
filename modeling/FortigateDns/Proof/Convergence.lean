import FortigateDns.Proof.Exclusive

/-!
# Convergence in two rounds

Planning and applying a plan completely is a round. What a round does to the rows of a name
is `Round`; the argument is about one name at a time:

* a name with a conflict stays as it is (`Round.same`);
* after one round every other name is quiet: its desired records are there, and nothing but
  cleanup is left to do (`Round.quiet_of_none`, `Round.quiet_of_replace`);
* a round at a quiet name leaves nothing to clean up (`Round.settled`).

So a third plan has conflicts only (`converges_in_two_rounds`).
-/

namespace FortigateDns

open Go GoMap List

variable {rt : Runtime} {desired table D C C' : List Endpoint} {ownerID : String} {cleanup : CleanupPolicy}
variable {allowed : Endpoint → Bool} {g : String} {op : Operation} {run : List (Operation × String)}
variable {e : Endpoint}
variable {c : Endpoint}

theorem head_copies_min (h : NameOK g D C) {kept r : Endpoint} (hk : (copies ownerID C e).head? = some kept)
    (hr : r ∈ copies ownerID C e) : kept.providerID ≤ r.providerID := by
  have : Std.Total (fun a b : Endpoint => ownedLE a b = true) := by
    refine ⟨fun a b => ?_⟩
    unfold ownedLE
    cases hasProviderID a <;> cases hasProviderID b <;> simp [le_total]
  have : IsTrans Endpoint (fun a b => ownedLE a b = true) := by
    refine ⟨fun a b c => ?_⟩
    unfold ownedLE
    cases hasProviderID a <;> cases hasProviderID b <;> cases hasProviderID c <;> simp <;> exact le_trans
  have hsorted : (copies ownerID C e).Pairwise fun a b => ownedLE a b = true := by
    unfold copies partitionOwned
    exact pairwise_insertionSort _ _
  have hkC := (head_copies hk).1
  have hrC := (copies_mem.1 hr).1
  cases hl : copies ownerID C e with
  | nil => rw [hl] at hk; simp at hk
  | cons x l =>
    rw [hl] at hk hr hsorted
    simp only [head?_cons, Option.some.injEq] at hk
    subst hk
    rcases mem_cons.1 hr with rfl | hr
    · exact le_rfl
    · have := (pairwise_cons.1 hsorted).1 r hr
      unfold ownedLE at this
      simpa [h.nonBlank x hkC, h.nonBlank r hrC] using this

theorem eq_of_id (h : NameOK g D C) {a b : Endpoint} (ha : a ∈ C) (hb : b ∈ C)
    (hid : a.providerID = b.providerID) :
    a = b :=
  inj_on_of_nodup_map h.ids ha hb hid

/-- The copy with the smallest ID is the one that is kept. -/
theorem head_copies_of_min (h : NameOK g D C) {kept : Endpoint} (hk : kept ∈ copies ownerID C e)
    (hmin : ∀ r ∈ copies ownerID C e, kept.providerID ≤ r.providerID) :
    (copies ownerID C e).head? = some kept := by
  cases hh : (copies ownerID C e).head? with
  | none => rw [head?_eq_none_iff] at hh; rw [hh] at hk; simp at hk
  | some x =>
    have hx := mem_of_head? hh
    have hid := le_antisymm (head_copies_min h hh hk) (hmin x hx)
    rw [eq_of_id h (copies_mem.1 hx).1 (copies_mem.1 hk).1 hid]

/-- What a complete round makes of the rows `C` of a name. -/
structure Round (ownerID : String) (cleanup : CleanupPolicy) (allowed : Endpoint → Bool) (g : String)
    (D C C' : List Endpoint) : Prop where
  ok : NameOK g D C'
  same : (∀ op ∈ groupPlan ownerID cleanup allowed D C, op.type = .conflict) → C' = C
  kept : ∀ c ∈ C, (∀ op ∈ groupPlan ownerID cleanup allowed D C, op.type.mutatesRow = true → op.current ≠ c) →
    c ∈ C'
  written : ∀ op ∈ groupPlan ownerID cleanup allowed D C, op.type.mutatesRow = true → op.type ≠ .delete →
    overwrite op.current op.desired ∈ C'
  created : ∀ op ∈ groupPlan ownerID cleanup allowed D C, op.type = .create →
    ∃ id, createdRow ownerID id op.desired ∈ C'
  origin : ∀ r ∈ C',
    (r ∈ C ∧ ∀ op ∈ groupPlan ownerID cleanup allowed D C, op.type.mutatesRow = true → op.current ≠ r) ∨
    (∃ op ∈ groupPlan ownerID cleanup allowed D C, op.type.mutatesRow = true ∧ op.type ≠ .delete ∧
      r = overwrite op.current op.desired) ∨
    ∃ op ∈ groupPlan ownerID cleanup allowed D C, op.type = .create ∧ ∃ id, r = createdRow ownerID id op.desired

section RoundOfRun

variable (hd : ∀ e ∈ desired, e.WellFormed) (ht : TableOK table)
  (hrun : PlannedRun rt desired table ownerID cleanup allowed run)
include hd ht hrun

/-- A new row of a name comes from a creation of that name. -/
theorem PlannedRun.new_row {r : Endpoint}
    (hr : r ∈ (run.filterMap (newRow ownerID)).filter fun c => c.mutationGroupKey = g) :
    ∃ op ∈ groupPlan ownerID cleanup allowed (desiredOf desired g) (rowsOf table g), op.type = .create ∧
      ∃ id, r = createdRow ownerID id op.desired := by
  rw [mem_filter, decide_eq_true_eq] at hr
  obtain ⟨p, hp, hcr, rfl⟩ := newRow_mem hr.1
  have hg : p.1.group = g := (hrun.desired_wf hd ht hp (by simp [hcr]) (by simp [hcr])).2.symm.trans hr.2
  have hop := hrun.mem hd ht hp
  rw [hg] at hop
  exact ⟨p.1, hop, hcr, p.2, rfl⟩

/-- A row that no operation of its name is about stays. -/
theorem PlannedRun.untouched (hc : c ∈ rowsOf table g)
    (hno : ∀ op ∈ groupPlan ownerID cleanup allowed (desiredOf desired g) (rowsOf table g),
      op.type.mutatesRow = true → op.current ≠ c) :
    rowAfter (run.map Prod.fst) c = some c := by
  obtain ⟨hct, hcg⟩ := mem_rowsOf.1 hc
  rcases hrun.rowAfter_cases hd ht hct with ⟨h1, -⟩ | ⟨p, hp, hm, hcur, -⟩
  · exact h1
  · exact absurd hcur (hno p.1 (hrun.mem_of_row hd ht hp hm (by rw [hcur]; exact hcg)) hm)

/-- A row is overwritten by the one operation that is about it. -/
theorem PlannedRun.overwritten {p : Operation × String} (hp : p ∈ run) (hm : p.1.type.mutatesRow = true)
    (hdel : p.1.type ≠ .delete) :
    rowAfter (run.map Prod.fst) p.1.current = some (overwrite p.1.current p.1.desired) := by
  rcases hrun.rowAfter_cases hd ht (hrun.row hd ht hp hm).1 with ⟨-, h⟩ | ⟨q, hq, hqm, hqc, h⟩
  · exact absurd rfl (h p hp hm)
  · have hqp : q.1 = p.1 := by
      have hnd := @plan_current_nodup rt _ _ ownerID cleanup allowed hd ht
      exact inj_on_of_nodup_map hnd
        (mem_filter.2 ⟨hrun.planned.subset (mem_map_of_mem hq), hqm⟩)
        (mem_filter.2 ⟨hrun.planned.subset (mem_map_of_mem hp), hm⟩) hqc
    rw [h, hqp, if_neg hdel]

/-- What becomes of a row is that row, or what its operation writes. -/
theorem PlannedRun.rowAfter_origin {r : Endpoint} (hc : c ∈ rowsOf table g)
    (hr : rowAfter (run.map Prod.fst) c = some r) :
    (r = c ∧ ∀ p ∈ run, p.1.type.mutatesRow = true → p.1.current ≠ c) ∨
      ∃ op ∈ groupPlan ownerID cleanup allowed (desiredOf desired g) (rowsOf table g), op.type.mutatesRow = true ∧
        op.type ≠ .delete ∧ r = overwrite op.current op.desired := by
  obtain ⟨hct, hcg⟩ := mem_rowsOf.1 hc
  rcases hrun.rowAfter_cases hd ht hct with ⟨h1, h2⟩ | ⟨p, hp, hm, hcur, h1⟩
  · rw [h1, Option.some.injEq] at hr
    exact Or.inl ⟨hr.symm, h2⟩
  · rw [h1] at hr
    split at hr
    · simp at hr
    · rename_i hdel
      cases hr
      exact Or.inr ⟨p.1, hrun.mem_of_row hd ht hp hm (by rw [hcur]; exact hcg), hm, hdel, by rw [hcur]⟩

end RoundOfRun

/-- **A run of the whole plan is a round at every name.** -/
theorem round_of_run (hd : ∀ e ∈ desired, e.WellFormed) (ht : TableOK table)
    (hplan : run.map Prod.fst = buildWithCleanupScope rt desired table ownerID cleanup allowed)
    (hfresh : FreshIDs ownerID table run) (g : String) :
    Round ownerID cleanup allowed g (desiredOf desired g) (rowsOf table g)
      (rowsOf (applyAll ownerID table run) g) := by
  have hrun : PlannedRun rt desired table ownerID cleanup allowed run := ⟨by rw [hplan], hfresh⟩
  have hrows := hrun.rowsOf_applyAll hd ht g
  -- every operation of the name is in the run
  have hin : ∀ op ∈ groupPlan ownerID cleanup allowed (desiredOf desired g) (rowsOf table g),
      op.group = g ∧ ∃ p ∈ run, p.1 = op := by
    intro op hop
    obtain ⟨h1, h2⟩ := (@mem_plan_group rt _ _ _ _ _ _ _ hd ht.wf).2 hop
    rw [← hplan] at h1
    obtain ⟨p, hp, hpo⟩ := mem_map.1 h1
    exact ⟨h2, p, hp, hpo⟩
  refine ⟨nameOK hd (hrun.table_ok hd ht) g, ?_, ?_, ?_, ?_, ?_⟩
  · intro hconf
    rw [hrows]
    have h1 : (run.filterMap (newRow ownerID)).filter (fun c => decide (c.mutationGroupKey = g)) = [] := by
      rw [eq_nil_iff_forall_not_mem]
      intro r hr
      obtain ⟨op, hop, hcr, -⟩ := hrun.new_row hd ht hr
      rw [hconf op hop] at hcr; simp at hcr
    have h2 : ∀ c ∈ rowsOf table g, rowAfter (run.map Prod.fst) c = some c := by
      intro c hc
      refine hrun.untouched hd ht hc fun op hop hm => ?_
      rw [hconf op hop] at hm; simp [OperationType.mutatesRow] at hm
    rw [h1, filterMap_congr h2, filterMap_some, append_nil]
  · intro c hc hno
    rw [hrows]
    exact mem_append_left _ (mem_filterMap.2 ⟨c, hc, hrun.untouched hd ht hc hno⟩)
  · intro op hop hm hdel
    obtain ⟨hg, p, hp, rfl⟩ := hin op hop
    obtain ⟨hct, hcg, -⟩ := hrun.row hd ht hp hm
    rw [hrows]
    exact mem_append_left _ (mem_filterMap.2
      ⟨p.1.current, mem_rowsOf.2 ⟨hct, hcg.trans hg⟩, hrun.overwritten hd ht hp hm hdel⟩)
  · intro op hop hcr
    obtain ⟨hg, p, hp, rfl⟩ := hin op hop
    have hdg := (hrun.desired_wf hd ht hp (by simp [hcr]) (by simp [hcr])).2
    refine ⟨p.2, ?_⟩
    rw [hrows]
    refine mem_append_right _ (mem_filter.2 ⟨mem_filterMap.2 ⟨p, hp, by simp [newRow, hcr]⟩, ?_⟩)
    rw [decide_eq_true_eq]
    exact hdg.trans hg
  · intro r hr
    rw [hrows] at hr
    rcases mem_append.1 hr with hr | hr
    · obtain ⟨c, hc, hcr⟩ := mem_filterMap.1 hr
      rcases hrun.rowAfter_origin hd ht hc hcr with ⟨rfl, h⟩ | h
      · refine Or.inl ⟨hc, fun op hop hm => ?_⟩
        obtain ⟨-, p, hp, rfl⟩ := hin op hop
        exact h p hp hm
      · exact Or.inr (Or.inl h)
    · exact Or.inr (Or.inr (hrun.new_row hd ht hr))

theorem ownedBy_createdRow (id : String) (d : Endpoint) : ownedBy (createdRow ownerID id d) ownerID = true := by
  simp [ownedBy, createdRow]

theorem equalRecord_of_fields {a b : Endpoint} (h1 : a.dnsName = b.dnsName) (h2 : a.recordType = b.recordType)
    (h3 : a.targets = b.targets) (h4 : a.ttl = b.ttl) (h5 : a.disabled = b.disabled) :
    a.equalRecord b = true := by
  unfold Endpoint.equalRecord Endpoint.normalize
  simp [h1, h2, h3, h4, h5]

theorem equalRecord_overwrite (c d : Endpoint) : (overwrite c d).equalRecord d = true :=
  equalRecord_of_fields rfl rfl rfl rfl rfl

theorem equalRecord_createdRow (id : String) (d : Endpoint) : (createdRow ownerID id d).equalRecord d = true :=
  equalRecord_of_fields rfl rfl rfl rfl rfl

section

variable (h : NameOK g D C) (hr : Round ownerID cleanup allowed g D C C')

include h hr

omit h in
/-- Unowned rows stay, and none appear. -/
theorem Round.unowned : (c ∈ C' ∧ ownedBy c ownerID = false) ↔ c ∈ C ∧ ownedBy c ownerID = false := by
  constructor
  · rintro ⟨hc, ho⟩
    rcases hr.origin c hc with ⟨h1, -⟩ | ⟨op, hop, hm, -, rfl⟩ | ⟨op, -, -, id, rfl⟩
    · exact ⟨h1, ho⟩
    · have := (groupPlan_row hop hm).2.1
      rw [show ownedBy (overwrite op.current op.desired) ownerID = ownedBy op.current ownerID from rfl,
        this] at ho
      simp at ho
    · rw [ownedBy_createdRow] at ho; simp at ho
  · rintro ⟨hc, ho⟩
    refine ⟨hr.kept c hc fun op hop hm hcur => ?_, ho⟩
    rw [← hcur, (groupPlan_row hop hm).2.1] at ho
    simp at ho

omit h in
theorem Round.siblings (e : Endpoint) : unownedSiblings ownerID C' e = [] ↔ unownedSiblings ownerID C e = [] := by
  rw [eq_nil_iff_forall_not_mem, eq_nil_iff_forall_not_mem]
  simp only [mem_unownedSiblings]
  constructor
  · rintro hno c ⟨hc, hl, ho⟩
    have := hr.unowned.2 ⟨hc, ho⟩
    exact hno c ⟨this.1, hl, ho⟩
  · rintro hno c ⟨hc, hl, ho⟩
    have := hr.unowned.1 ⟨hc, ho⟩
    exact hno c ⟨this.1, hl, ho⟩

omit h in
theorem Round.nameConflict_none (hn : nameConflict ownerID D C = none) : nameConflict ownerID D C' = none := by
  rw [nameConflict_eq_none] at hn ⊢
  refine ⟨hn.1, fun e he c hc ho => ?_⟩
  have := hr.unowned.1 ⟨hc, ho⟩
  exact hn.2 e he c this.1 ho

end

/-- What writes over a row of a name that is decided record by record. -/
theorem written_cases (hn : nameDecision ownerID cleanup allowed D C = none)
    (hop : op ∈ groupPlan ownerID cleanup allowed D C) (hm : op.type.mutatesRow = true)
    (hdel : op.type ≠ .delete) :
    (∃ f ∈ D, (copies ownerID C f).head? = some op.current ∧ op.desired = f) ∨
    (∃ f ∈ missing ownerID D C, op.desired = f) ∨
    op.current ∈ stale ownerID allowed D C ∧ op.desired = { op.current with disabled := true } := by
  rcases mem_groupPlan.1 hop with hn' | ⟨-, hrp⟩
  · rw [hn] at hn'; simp at hn'
  rcases mem_recordPlan.1 hrp with ⟨f, hf, hrec⟩ | ⟨f, hf, hrep⟩ | ⟨f, hf, rfl⟩ | ⟨-, c, hc, hcl⟩
  · exact Or.inl ⟨f, hf, updates_current hrec hm, recordOperation_desired hrec⟩
  · exact Or.inr (Or.inl ⟨f, hf, (recordReplacement_row hrep).2.2.1⟩)
  · simp [OperationType.mutatesRow] at hm
  · right; right
    rcases cleanupOperation_eq_some.1 hcl with ⟨-, rfl⟩ | ⟨-, -, rfl⟩
    · exact absurd rfl hdel
    · exact ⟨(leftover_row hc).1, rfl⟩

/-- A name where every desired record without a blocking row is there. -/
structure Quiet (ownerID : String) (cleanup : CleanupPolicy) (allowed : Endpoint → Bool) (D C : List Endpoint) :
    Prop where
  free : nameDecision ownerID cleanup allowed D C = none
  present : ∀ e ∈ D, unownedSiblings ownerID C e = [] →
    ∃ kept, (copies ownerID C e).head? = some kept ∧ kept.equalRecord e = true

section

variable (h : NameOK g D C) (hr : Round ownerID cleanup allowed g D C C')
  (hn : nameDecision ownerID cleanup allowed D C = none)

include h hr hn

/-- Where the copies of a desired endpoint come from in a round. -/
theorem Round.copies_origin (he : e ∈ D) {r : Endpoint} (hrc : r ∈ copies ownerID C' e) :
    r ∈ copies ownerID C e ∨
    (∃ kept, (copies ownerID C e).head? = some kept ∧ r = overwrite kept e) ∨
    (e ∈ missing ownerID D C ∧ r.equalRecord e = true) ∨
    ∃ x ∈ copies ownerID C e, r.providerID = x.providerID := by
  obtain ⟨hrC, hkey, hown⟩ := copies_mem.1 hrc
  rcases hr.origin r hrC with ⟨h1, -⟩ | ⟨op, hop, hm, hdel, rfl⟩ | ⟨op, hop, hcr, id, rfl⟩
  · exact Or.inl (copies_mem.2 ⟨h1, hkey, hown⟩)
  · have hk : op.desired.key = e.key := hkey
    rcases written_cases hn hop hm hdel with ⟨f, hf, hhead, hdes⟩ | ⟨f, hf, hdes⟩ | ⟨hs, hdes⟩
    · have hfe : f = e := eq_of_key h hf he (by rw [← hdes]; exact hk)
      subst hfe
      exact Or.inr (Or.inl ⟨op.current, hhead, by rw [hdes]⟩)
    · have hfe : f = e := eq_of_key h (missing_mem.1 hf).1 he (by rw [← hdes]; exact hk)
      subst hfe
      refine Or.inr (Or.inr (Or.inl ⟨hf, ?_⟩))
      rw [hdes]; exact equalRecord_overwrite _ _
    · obtain ⟨hcC, hco, -⟩ := stale_row h hs
      refine Or.inr (Or.inr (Or.inr ⟨op.current, copies_mem.2 ⟨hcC, ?_, hco⟩, rfl⟩))
      rw [hdes] at hk; exact hk
  · have hm := (created_mem.1 (groupPlan_create hop hcr).2).1
    have hfe : op.desired = e := eq_of_key h (missing_mem.1 hm).1 he hkey
    rw [hfe] at hm
    refine Or.inr (Or.inr (Or.inl ⟨hm, ?_⟩))
    rw [hfe]; exact equalRecord_createdRow _ _

/-- After a round every desired record without a blocking row is there. -/
theorem Round.present (he : e ∈ D) (hu : unownedSiblings ownerID C e = []) :
    ∃ kept, (copies ownerID C' e).head? = some kept ∧ kept.equalRecord e = true := by
  have horigin := fun r hrc => hr.copies_origin h hn he (r := r) hrc
  have hmem : ∀ {op}, op ∈ recordPlan ownerID cleanup allowed D C → op ∈ groupPlan ownerID cleanup allowed D C :=
    fun h => mem_groupPlan.2 (Or.inr ⟨hn, h⟩)
  cases hk : (copies ownerID C e).head? with
  | some kept =>
    obtain ⟨hkC, hkey, hown⟩ := head_copies hk
    have hne : copies ownerID C e ≠ [] := ne_nil_of_mem (mem_of_head? hk)
    -- the kept row, with the desired record in it
    obtain ⟨kept', hk'C, hid, hk'key, hk'own, heq⟩ : ∃ kept' ∈ C', kept'.providerID = kept.providerID ∧
        kept'.key = e.key ∧ ownedBy kept' ownerID = true ∧ kept'.equalRecord e = true := by
      cases heq : kept.equalRecord e with
      | true =>
        exact ⟨kept, hr.kept kept hkC fun op hop _ => equal_untouched h hn he hk heq hop, rfl, hkey, hown, heq⟩
      | false =>
        have hop := hmem (mem_recordPlan.2 (Or.inl ⟨e, he,
          recordOperation_eq_some.2 (Or.inr ⟨hu, kept, hk, heq, rfl⟩)⟩))
        exact ⟨overwrite kept e, hr.written _ hop rfl (by simp), rfl, rfl, hown, equalRecord_overwrite _ _⟩
    refine ⟨kept', head_copies_of_min hr.ok (copies_mem.2 ⟨hk'C, hk'key, hk'own⟩) ?_, heq⟩
    intro r hrc
    rw [hid]
    rcases horigin r hrc with h1 | ⟨k, hk', rfl⟩ | ⟨hm, -⟩ | ⟨x, hx, hxid⟩
    · exact head_copies_min h hk h1
    · rw [hk, Option.some.injEq] at hk'
      rw [hk']; exact le_rfl
    · exact absurd (missing_mem.1 hm).2.2 hne
    · rw [hxid]; exact head_copies_min h hk hx
  | none =>
    rw [head?_eq_none_iff] at hk
    obtain ⟨op, hop, hpub, hdes⟩ := @missing_published _ _ _ cleanup allowed _
      (missing_mem.2 ⟨he, hu, hk⟩)
    have hop := hmem hop
    have hnew : copies ownerID C' e ≠ [] := by
      by_cases hcr : op.type = .create
      · obtain ⟨id, hid⟩ := hr.created op hop hcr
        rw [hdes] at hid
        exact ne_nil_of_mem (copies_mem.2 ⟨hid, rfl, ownedBy_createdRow id e⟩)
      · have hm : op.type.mutatesRow = true ∧ op.type ≠ .delete := by
          cases ht : op.type <;>
            simp [ht, OperationType.publishes, OperationType.mutatesRow] at hpub hcr ⊢
        have hw := hr.written op hop hm.1 hm.2
        rw [hdes] at hw
        exact ne_nil_of_mem (copies_mem.2 ⟨hw, rfl, (groupPlan_row hop hm.1).2.1⟩)
    cases hh : (copies ownerID C' e).head? with
    | none => exact absurd (head?_eq_none_iff.1 hh) hnew
    | some x =>
      refine ⟨x, rfl, ?_⟩
      rcases horigin x (mem_of_head? hh) with h1 | ⟨k, hk', -⟩ | ⟨-, heq⟩ | ⟨y, hy, -⟩
      · rw [hk] at h1; simp at h1
      · rw [hk] at hk'; simp at hk'
      · exact heq
      · rw [hk] at hy; simp at hy

omit h in
/-- The types of the rows stay compatible with the desired ones. -/
theorem Round.types_compatible {d : Endpoint} (hd : d ∈ D) (hc : c ∈ C') :
    cnameTypesConflict d.recordType c.recordType = false := by
  have hset := (nameConflict_eq_none.1 (nameDecision_eq_none.1 hn).1).1
  rcases hr.origin c hc with ⟨h1, -⟩ | ⟨op, hop, hm, hdel, rfl⟩ | ⟨op, hop, hcr, id, rfl⟩
  · exact FortigateDns.types_compatible hn hd h1
  · change cnameTypesConflict d.recordType op.desired.recordType = false
    rcases written_type (fun _ h => by rw [hn] at h; simp at h) hop hdel with h1 | h1
    · exact desiredSet_types hset hd h1
    · rw [h1]
      exact FortigateDns.types_compatible hn hd (groupPlan_row hop hm).1
  · change cnameTypesConflict d.recordType op.desired.recordType = false
    exact desiredSet_types hset hd (missing_mem.1 (created_mem.1 (groupPlan_create hop hcr).2).1).1

/-- No CNAME target transition appears. -/
theorem Round.no_target_transition : needsCNAMETargetReplacement D (partitionOwned C' ownerID).1 = false := by
  rw [Bool.eq_false_iff]
  intro hneed
  obtain ⟨d, rfl, hdt, hkeys, r, hro, hrt⟩ := needsCNAMETargetReplacement_iff.1 hneed
  have hdD : d ∈ [d] := mem_singleton_self d
  by_cases hu : unownedSiblings ownerID C d = []
  · obtain ⟨kept, hk, -⟩ := hr.present h hn hdD hu
    obtain ⟨hkC, hkey, hown⟩ := head_copies hk
    exact hkeys kept (mem_owned.2 ⟨hkC, hown⟩) hkey
  · -- a blocked CNAME: nothing of its type is touched
    have hblock := fun (op : Operation) hop ht => @blocked_untouched _ _ _ _ _ _ op _ h hn hdD hu hop ht
    have hmut : ∀ op : Operation, op.type.mutatesRow = true → op.type ≠ .conflict := by
      intro op hm hc; rw [hc] at hm; simp [OperationType.mutatesRow] at hm
    have hlog : ∀ c ∈ C, c.logicalKey = d.logicalKey := by
      intro c hc
      have hct : c.recordType = recordCNAME :=
        cnameTypesConflict_cname (hdt ▸ FortigateDns.types_compatible hn hdD hc)
      exact (logicalKey_iff_type (h.rows c hc).1 (h.desired d hdD).1
        ((h.rows c hc).2.trans (h.desired d hdD).2.symm)).2 (hct.trans hdt.symm)
    have hstay : ∀ c ∈ C, c ∈ C' := fun c hc => hr.kept c hc fun op hop hm hcur =>
      (hblock op hop (hmut op hm)).2 (by rw [hcur]; exact hlog c hc)
    rcases hr.origin r (mem_owned.1 hro).1 with ⟨hrC, -⟩ | ⟨op, hop, hm, -, rfl⟩ | ⟨op, hop, hcr, id, rfl⟩
    · obtain ⟨x, hx⟩ := exists_mem_of_ne_nil _ (cname_copy hn hdt hrC (mem_owned.1 hro).2)
      obtain ⟨hxC, hxk, hxo⟩ := copies_mem.1 hx
      exact hkeys x (mem_owned.2 ⟨hstay x hxC, hxo⟩) hxk
    · exact (hblock op hop (hmut op hm)).2 (hlog _ (groupPlan_row hop hm).1)
    · have hm := (created_mem.1 (groupPlan_create hop hcr).2).1
      obtain ⟨h1, h2, -⟩ := missing_mem.1 hm
      rw [mem_singleton.1 h1] at h2
      exact hu h2

/-- **After a round, a name that was decided record by record is quiet.** -/
theorem Round.quiet_of_none : Quiet ownerID cleanup allowed D C' where
  free := by
    refine nameDecision_eq_none.2 ⟨hr.nameConflict_none (nameDecision_eq_none.1 hn).1,
      hr.no_target_transition h hn, ?_⟩
    unfold hasCNAMETypeTransition
    simp only [any_eq_false, Bool.not_eq_true]
    intro d hd c hc
    exact hr.types_compatible hn hd (mem_owned.1 hc).1
  present e he hu := hr.present h hn he ((hr.siblings e).1 hu)

end

/-- **After a round, a name with an in-place replacement is quiet.** -/
theorem Round.quiet_of_replace (h : NameOK g D C) (hr : Round ownerID cleanup allowed g D C C')
    (hn : nameDecision ownerID cleanup allowed D C = some op) (hty : op.type = .replace) :
    Quiet ownerID cleanup allowed D C' := by
  obtain ⟨e, c, rfl, hown, hdes, hcur, -, -, hsib, hnc, -⟩ := nameDecision_replace hn hty
  have hplan : ∀ x, x ∈ groupPlan ownerID cleanup allowed [e] C ↔ x = op := by
    intro x; unfold groupPlan; rw [hn]; simp
  have hopm : op.type.mutatesRow = true ∧ op.type ≠ .delete := by rw [hty]; simp [OperationType.mutatesRow]
  have hco : c ∈ C ∧ ownedBy c ownerID = true := mem_owned.1 (by rw [hown]; exact mem_singleton_self c)
  -- the replaced row is the only owned one
  have howned : ∀ r ∈ C', ownedBy r ownerID = true → r = overwrite c e := by
    intro r hrC hro
    rcases hr.origin r hrC with ⟨h1, h2⟩ | ⟨x, hx, -, -, rfl⟩ | ⟨x, hx, hcr, -⟩
    · have hrc : r ∈ (partitionOwned C ownerID).1 := mem_owned.2 ⟨h1, hro⟩
      rw [hown, mem_singleton] at hrc
      exact absurd (hcur.trans hrc.symm) (h2 op ((hplan op).2 rfl) hopm.1)
    · rw [(hplan x).1 hx, hdes, hcur]
    · rw [(hplan x).1 hx, hty] at hcr; simp at hcr
  have hmem : overwrite c e ∈ C' := by
    have := hr.written op ((hplan op).2 rfl) hopm.1 hopm.2
    rwa [hdes, hcur] at this
  have hcop : overwrite c e ∈ copies ownerID C' e := copies_mem.2 ⟨hmem, rfl, hco.2⟩
  refine ⟨nameDecision_eq_none.2 ⟨hr.nameConflict_none hnc, ?_, ?_⟩, ?_⟩
  · rw [Bool.eq_false_iff]
    intro hneed
    obtain ⟨d, hd, -, hkeys, -⟩ := needsCNAMETargetReplacement_iff.1 hneed
    rw [List.cons.injEq] at hd
    rw [← hd.1] at hkeys
    exact hkeys (overwrite c e) (mem_owned.2 ⟨hmem, hco.2⟩) rfl
  · unfold hasCNAMETypeTransition
    simp only [any_eq_false, Bool.not_eq_true]
    intro d hd r hrc
    obtain ⟨h1, h2⟩ := mem_owned.1 hrc
    rw [mem_singleton.1 hd, howned r h1 h2]
    simp [cnameTypesConflict, overwrite]
  · intro d hd _
    rw [mem_singleton.1 hd]
    cases hh : (copies ownerID C' e).head? with
    | none => rw [head?_eq_none_iff] at hh; rw [hh] at hcop; simp at hcop
    | some x =>
      obtain ⟨h1, -, h2⟩ := head_copies hh
      exact ⟨x, rfl, by rw [howned x h1 h2]; exact equalRecord_overwrite c e⟩

theorem Quiet.missing_nil (hq : Quiet ownerID cleanup allowed D C) : missing ownerID D C = [] := by
  rw [eq_nil_iff_forall_not_mem]
  intro e he
  obtain ⟨heD, hu, hk⟩ := missing_mem.1 he
  obtain ⟨kept, hkept, -⟩ := hq.present e heD hu
  rw [hk] at hkept; simp at hkept

/-- A plan for a quiet name has conflicts of single records and cleanup only. -/
theorem Quiet.mem_plan (hq : Quiet ownerID cleanup allowed D C) :
    op ∈ groupPlan ownerID cleanup allowed D C ↔
      (∃ e ∈ D, ∃ c, (unownedSiblings ownerID C e).head? = some c ∧
        op = { type := .conflict, desired := e, current := c, reason := reasonNotOwned }) ∨
      ∃ c ∈ stale ownerID allowed D C, cleanupOperation cleanup c = some op := by
  have hm := hq.missing_nil
  have hcr : created ownerID cleanup allowed D C = [] := by unfold created; rw [hm]; rfl
  have hlo : leftover ownerID cleanup allowed D C = stale ownerID allowed D C := by
    unfold leftover
    rw [filter_eq_self]
    intro s _
    unfold paired
    simp [hm]
  rw [mem_groupPlan, mem_recordPlan, hq.free, hm, hcr, hlo]
  simp only [reduceCtorEq, false_or, true_and, not_mem_nil, false_and, exists_false]
  constructor
  · rintro (⟨e, he, hrec⟩ | h)
    · rcases recordOperation_eq_some.1 hrec with ⟨c, hc, rfl⟩ | ⟨hu, kept, hk, hne, -⟩
      · exact Or.inl ⟨e, he, c, hc, rfl⟩
      · obtain ⟨kept', hk', heq⟩ := hq.present e he hu
        rw [hk, Option.some.injEq] at hk'
        rw [hk', heq] at hne; simp at hne
    · exact Or.inr h
  · rintro (⟨e, he, c, hc, rfl⟩ | h)
    · exact Or.inl ⟨e, he, recordOperation_eq_some.2 (Or.inl ⟨c, hc, rfl⟩)⟩
    · exact Or.inr h

/-- A row that is stale after a round at a quiet name, and that the round did not touch, was
stale before. -/
theorem Round.stale_of_untouched (h : NameOK g D C) (hr : Round ownerID cleanup allowed g D C C')
    (hq : Quiet ownerID cleanup allowed D C) (hc : c ∈ stale ownerID allowed D C') (hcC : c ∈ C) :
    c ∈ stale ownerID allowed D C := by
  obtain ⟨-, hown, hall, hb⟩ := stale_row hr.ok hc
  rw [mem_stale]
  rcases mem_stale.1 hc with ⟨e, he, hdup⟩ | ⟨-, horph⟩
  · left
    obtain ⟨hu', hcop', -⟩ := duplicatesOf_mem hdup
    have hu := (hr.siblings e).1 hu'
    have hkey := (copies_mem.1 hcop').2.1
    have hcop : c ∈ copies ownerID C e := copies_mem.2 ⟨hcC, hkey, hown⟩
    refine ⟨e, he, ?_⟩
    -- the kept copy is the same before and after
    obtain ⟨kept, hk, heq⟩ := hq.present e he hu
    obtain ⟨hkC, hkk, hko⟩ := head_copies hk
    have hkC' : kept ∈ C' := hr.kept kept hkC fun op hop _ => equal_untouched h hq.free he hk heq hop
    have hk' : (copies ownerID C' e).head? = some kept := by
      apply head_copies_of_min hr.ok (copies_mem.2 ⟨hkC', hkk, hko⟩)
      intro r hrc
      rcases hr.copies_origin h hq.free he hrc with h1 | ⟨k, hk', rfl⟩ | ⟨hm, -⟩ | ⟨x, hx, hxid⟩
      · exact head_copies_min h hk h1
      · rw [hk, Option.some.injEq] at hk'
        rw [hk']; exact le_rfl
      · rw [hq.missing_nil] at hm; simp at hm
      · rw [hxid]; exact head_copies_min h hk hx
    have hne : c ≠ kept := fun heq => kept_not_stale hr.ok he hk' (heq ▸ hc)
    unfold duplicatesOf
    rw [if_pos hu, mem_filter]
    refine ⟨?_, hall⟩
    cases hl : copies ownerID C e with
    | nil => rw [hl] at hcop; simp at hcop
    | cons x l =>
      rw [hl] at hk hcop
      simp only [head?_cons, Option.some.injEq] at hk
      rcases mem_cons.1 hcop with h1 | h1
      · exact absurd (h1.trans hk) hne
      · exact h1
  · right
    refine ⟨hcC, orphaned_iff.2 ⟨(orphaned_iff.1 horph).1, ?_, hown, hall⟩⟩
    exact fun e he hl => (hr.siblings e).1 (hb e he hl)

/-- **A round at a quiet name leaves only conflicts.** -/
theorem Round.settled (h : NameOK g D C) (hr : Round ownerID cleanup allowed g D C C')
    (hq : Quiet ownerID cleanup allowed D C) (hop : op ∈ groupPlan ownerID cleanup allowed D C') :
    op.type = .conflict := by
  have hq' := hr.quiet_of_none h hq.free
  rcases hq'.mem_plan.1 hop with ⟨e, -, c, -, rfl⟩ | ⟨c, hc, hcl⟩
  · rfl
  exfalso
  have hcC' := (stale_row hr.ok hc).1
  rcases hr.origin c hcC' with ⟨hcC, huntouched⟩ | ⟨x, hx, hm, hdel, rfl⟩ | ⟨x, hx, hcr, -⟩
  · -- it was stale before, so the round cleaned it up
    have hs := hr.stale_of_untouched h hq hc hcC
    obtain ⟨hcur, ht, -⟩ := cleanupOperation_current hcl
    refine huntouched op (hq.mem_plan.2 (Or.inr ⟨c, hs, hcl⟩)) ?_ hcur
    rcases ht with ht | ht <;> rw [ht] <;> rfl
  · -- it was deactivated, and stays so
    rcases hq.mem_plan.1 hx with ⟨e, -, y, -, rfl⟩ | ⟨y, -, hy⟩
    · simp [OperationType.mutatesRow] at hm
    · rcases cleanupOperation_eq_some.1 hy with ⟨-, rfl⟩ | ⟨hpol, -, rfl⟩
      · exact hdel rfl
      · rcases cleanupOperation_eq_some.1 hcl with ⟨hpol', -⟩ | ⟨-, hdis, -⟩
        · rw [hpol] at hpol'; simp at hpol'
        · simp [overwrite] at hdis
  · rcases hq.mem_plan.1 hx with ⟨e, -, y, -, rfl⟩ | ⟨y, -, hy⟩
    · simp at hcr
    · rcases (cleanupOperation_current hy).2.1 with ht | ht <;> rw [ht] at hcr <;> simp at hcr

/-- The conflicts of a quiet name are those of its blocked records. -/
theorem Quiet.conflict_keys (hq : Quiet ownerID cleanup allowed D C) (k : String) :
    (∃ op ∈ groupPlan ownerID cleanup allowed D C, op.type = .conflict ∧ op.desired.key = k) ↔
      ∃ e ∈ D, unownedSiblings ownerID C e ≠ [] ∧ e.key = k := by
  constructor
  · rintro ⟨op, hop, ht, hk⟩
    rcases hq.mem_plan.1 hop with ⟨e, he, c, hc, rfl⟩ | ⟨c, -, hcl⟩
    · exact ⟨e, he, ne_nil_of_mem (mem_of_head? hc), hk⟩
    · rcases (cleanupOperation_current hcl).2.1 with h | h <;> rw [h] at ht <;> simp at ht
  · rintro ⟨e, he, hu, hk⟩
    cases hh : (unownedSiblings ownerID C e).head? with
    | none => exact absurd (head?_eq_none_iff.1 hh) hu
    | some c => exact ⟨_, hq.mem_plan.2 (Or.inl ⟨e, he, c, hh, rfl⟩), rfl, hk⟩

/-- Two rounds at one name: only conflicts are left, for the same desired keys. -/
theorem two_rounds {C₁ C₂ : List Endpoint} (h : NameOK g D C) (hr₁ : Round ownerID cleanup allowed g D C C₁)
    (hr₂ : Round ownerID cleanup allowed g D C₁ C₂) :
    (∀ op ∈ groupPlan ownerID cleanup allowed D C₂, op.type = .conflict) ∧
      ∀ k, (∃ op ∈ groupPlan ownerID cleanup allowed D C₁, op.type = .conflict ∧ op.desired.key = k) ↔
        ∃ op ∈ groupPlan ownerID cleanup allowed D C₂, op.type = .conflict ∧ op.desired.key = k := by
  have hcases : Quiet ownerID cleanup allowed D C₁ ∨
      ∀ op ∈ groupPlan ownerID cleanup allowed D C, op.type = .conflict := by
    cases hn : nameDecision ownerID cleanup allowed D C with
    | none => exact Or.inl (hr₁.quiet_of_none h hn)
    | some op =>
      rcases nameDecision_type hn with ht | ht
      · right
        intro x hx
        unfold groupPlan at hx
        rw [hn] at hx
        rw [mem_singleton.1 hx]; exact ht
      · exact Or.inl (hr₁.quiet_of_replace h hn ht)
  rcases hcases with hq₁ | hconf
  · have hq₂ := hr₂.quiet_of_none hr₁.ok hq₁.free
    refine ⟨fun op hop => hr₂.settled hr₁.ok hq₁ hop, fun k => ?_⟩
    rw [hq₁.conflict_keys, hq₂.conflict_keys]
    simp only [ne_eq, hr₂.siblings]
  · -- a conflict of the whole name: both rounds do nothing
    have h1 := hr₁.same hconf
    subst h1
    have h2 := hr₂.same hconf
    subst h2
    exact ⟨hconf, fun k => Iff.rfl⟩

/-- **Planning and applying converges in two rounds**: a third plan has conflicts only, for the
same desired keys as the second. The cleanup scope may be any predicate. -/
theorem converges_in_two_rounds (rt₁ rt₂ rt₃ : Runtime) (desired table : List Endpoint) (ownerID : String)
    (cleanup : CleanupPolicy) (allowed : Endpoint → Bool) (run₁ run₂ : List (Operation × String))
    (hd : ∀ e ∈ desired, e.WellFormed) (ht : TableOK table)
    (h₁ : run₁.map Prod.fst = buildWithCleanupScope rt₁ desired table ownerID cleanup allowed)
    (hf₁ : FreshIDs ownerID table run₁)
    (h₂ : run₂.map Prod.fst =
      buildWithCleanupScope rt₂ desired (applyAll ownerID table run₁) ownerID cleanup allowed)
    (hf₂ : FreshIDs ownerID (applyAll ownerID table run₁) run₂) :
    let plan₂ := buildWithCleanupScope rt₂ desired (applyAll ownerID table run₁) ownerID cleanup allowed
    let plan₃ := buildWithCleanupScope rt₃ desired (applyAll ownerID (applyAll ownerID table run₁) run₂)
      ownerID cleanup allowed
    (∀ op ∈ plan₃, op.type = .conflict) ∧
      ∀ k, (∃ op ∈ plan₂, op.type = .conflict ∧ op.desired.key = k) ↔
        ∃ op ∈ plan₃, op.type = .conflict ∧ op.desired.key = k := by
  intro plan₂ plan₃
  have ht₁ : TableOK (applyAll ownerID table run₁) :=
    @PlannedRun.table_ok rt₁ _ _ _ _ _ _ hd ht ⟨by rw [h₁], hf₁⟩
  have ht₂ : TableOK (applyAll ownerID (applyAll ownerID table run₁) run₂) :=
    @PlannedRun.table_ok rt₂ _ _ _ _ _ _ hd ht₁ ⟨by rw [h₂], hf₂⟩
  have hg := fun g => two_rounds (nameOK hd ht g) (round_of_run hd ht h₁ hf₁ g) (round_of_run hd ht₁ h₂ hf₂ g)
  refine ⟨fun op hop => (hg op.group).1 op ((mem_plan hd ht₂.wf).1 hop), fun k => ⟨?_, ?_⟩⟩
  · rintro ⟨op, hop, hty, hk⟩
    obtain ⟨op', hop', h'⟩ := ((hg op.group).2 k).1 ⟨op, (mem_plan hd ht₁.wf).1 hop, hty, hk⟩
    exact ⟨op', ((mem_plan_group hd ht₂.wf).2 hop').1, h'⟩
  · rintro ⟨op, hop, hty, hk⟩
    obtain ⟨op', hop', h'⟩ := ((hg op.group).2 k).2 ⟨op, (mem_plan hd ht₂.wf).1 hop, hty, hk⟩
    exact ⟨op', ((mem_plan_group hd ht₁.wf).2 hop').1, h'⟩

/-- A create delays the cleanup of a stale row to the second round. -/
theorem converges_in_two_rounds_create :
    let e : Endpoint := { dnsName := "www", recordType := "A", targets := ["192.0.2.1"], zone := "lan" }
    let f : Endpoint := { e with targets := ["192.0.2.2"] }
    let row : Endpoint := { e with targets := ["192.0.2.9"], ownerID := "me", providerID := "1" }
    let plan := fun t => buildWithCleanupScope .plain [e, f] t "me" .delete fun _ => true
    let run₁ := (plan [row]).zip ["2", "3"]
    let t₁ := applyAll "me" [row] run₁
    let run₂ := (plan t₁).zip [""]
    (plan [row]).map (·.type) = [.create, .create] ∧ (plan t₁).map (·.type) = [.delete] ∧
      ∀ op ∈ plan (applyAll "me" t₁ run₂), op.type = .conflict := by
  intro e f row plan run₁ t₁ run₂
  exact ⟨by decide +kernel, by decide +kernel, (converges_in_two_rounds .plain .plain .plain [e, f] [row] "me"
    .delete (fun _ => true) run₁ run₂ (by decide +kernel) (by decide +kernel) (by decide +kernel)
    (by decide +kernel) (by decide +kernel) (by decide +kernel)).1⟩

end FortigateDns
