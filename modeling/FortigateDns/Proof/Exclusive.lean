import FortigateDns.Proof.TableRun

/-!
# CNAME exclusivity under partial apply

No prefix of a plan, with any of its operations failing, puts a CNAME row next to another
row of its name (`cname_exclusive`). A CNAME is only ever created at a name without rows, or
written over the only row of its name.
-/

namespace FortigateDns

open Go GoMap List Bool

variable {rt : Runtime} {desired table D C : List Endpoint} {ownerID : String} {cleanup : CleanupPolicy}
variable {allowed : Endpoint → Bool} {g : String} {op : Operation} {run : List (Operation × String)}
variable {d c r : Endpoint}

theorem cnameTypesConflict_comm (a b : String) : cnameTypesConflict a b = cnameTypesConflict b a := by
  unfold cnameTypesConflict
  rw [Bool.or_comm (b == recordCNAME), bne_comm]

theorem cnameTypesConflict_cname {t : String} (h : cnameTypesConflict recordCNAME t = false) :
    t = recordCNAME := by
  unfold cnameTypesConflict at h
  by_contra hne
  simp [Ne.symm hne] at h

theorem desiredSet_compatible (h : desiredSetHasCNAMEConflict D = false) :
    D.Pairwise fun e f => cnameTypesConflict e.recordType f.recordType = false := by
  induction D with
  | nil => exact List.Pairwise.nil
  | cons e D ih =>
    simp only [desiredSetHasCNAMEConflict, or_eq_false_iff, any_eq_false, not_eq_true] at h
    exact List.Pairwise.cons h.1 (ih h.2)

theorem cnames_le_one : ∀ (D : List Endpoint) (n : Nat), hasMultipleCNAMETargets n D = false →
    (D.filter fun e => e.recordType = recordCNAME) = [] ∨
      n + (D.filter fun e => e.recordType = recordCNAME).length ≤ 1 := by
  intro D
  induction D with
  | nil => intro n _; exact Or.inl rfl
  | cons e D ih =>
    intro n h
    unfold hasMultipleCNAMETargets at h
    by_cases he : e.recordType = recordCNAME
    · rw [if_neg (by simpa using he)] at h
      split at h
      · simp at h
      · rename_i hn
        rw [filter_cons_of_pos (by simpa using he)]
        rcases ih (n + 1) h with hnil | hle
        · right; rw [hnil, length_singleton]; omega
        · right; rw [length_cons]; omega
    · rw [if_pos (by simpa using he)] at h
      rw [filter_cons_of_neg (by simpa using he)]
      exact ih n h

theorem desiredSetConflict_eq_none : desiredSetConflict D = none ↔
    desiredSetHasCNAMEConflict D = false ∧ desiredSetHasMultipleCNAMETargets D = false := by
  unfold desiredSetConflict
  cases desiredSetHasCNAMEConflict D <;> cases desiredSetHasMultipleCNAMETargets D <;> simp

/-- No two types of a desired set without a conflict exclude each other. -/
theorem desiredSet_types (h : desiredSetConflict D = none) {e : Endpoint} (hd : d ∈ D) (he : e ∈ D) :
    cnameTypesConflict d.recordType e.recordType = false := by
  have : Std.Symm fun x y : Endpoint => cnameTypesConflict x.recordType y.recordType = false :=
    ⟨fun x y h => by rw [cnameTypesConflict_comm]; exact h⟩
  exact List.Pairwise.forall_of_forall (fun x _ => by simp [cnameTypesConflict])
    (desiredSet_compatible (desiredSetConflict_eq_none.1 h).1) hd he

/-- A desired set without a conflict has a CNAME only if it has nothing else. -/
theorem desiredSet_cname (h : desiredSetConflict D = none) (hd : d ∈ D) (ht : d.recordType = recordCNAME) :
    D = [d] := by
  have hall : ∀ e ∈ D, e.recordType = recordCNAME :=
    fun e he => cnameTypesConflict_cname (ht ▸ desiredSet_types h hd he)
  have hfilter : (D.filter fun e => e.recordType = recordCNAME) = D :=
    filter_eq_self.2 fun e he => by simpa using hall e he
  have hlen : D.length ≤ 1 := by
    rcases cnames_le_one D 0 (desiredSetConflict_eq_none.1 h).2 with hnil | hle
    · rw [hfilter] at hnil; rw [hnil] at hd; simp at hd
    · rw [hfilter] at hle; omega
  have hlen1 : D.length = 1 := le_antisymm hlen (length_pos_of_mem hd)
  obtain ⟨x, hx⟩ := length_eq_one_iff.1 hlen1
  rw [hx, mem_singleton] at hd
  rw [hx, hd]

theorem nameDecision_eq_none :
    nameDecision ownerID cleanup allowed D C = none ↔ nameConflict ownerID D C = none ∧
      needsCNAMETargetReplacement D (partitionOwned C ownerID).1 = false ∧
        hasCNAMETypeTransition D (partitionOwned C ownerID).1 = false := by
  unfold nameDecision
  rw [Option.or_eq_none_iff, cnameTransition_eq_none]

/-- No row of such a name excludes a desired type. -/
theorem types_compatible (hn : nameDecision ownerID cleanup allowed D C = none) (hd : d ∈ D) (hc : c ∈ C) :
    cnameTypesConflict d.recordType c.recordType = false := by
  obtain ⟨h1, -, h3⟩ := nameDecision_eq_none.1 hn
  cases ho : ownedBy c ownerID with
  | false => exact (nameConflict_eq_none.1 h1).2 d hd c hc ho
  | true =>
    unfold hasCNAMETypeTransition at h3
    simp only [any_eq_false, not_eq_true] at h3
    exact h3 d hd c (mem_owned.2 ⟨hc, ho⟩)

theorem needsCNAMETargetReplacement_iff {rows : List Endpoint} :
    needsCNAMETargetReplacement D rows = true ↔ ∃ d, D = [d] ∧ d.recordType = recordCNAME ∧
      (∀ r ∈ rows, r.key ≠ d.key) ∧ ∃ r ∈ rows, r.recordType = recordCNAME := by
  unfold needsCNAMETargetReplacement
  constructor
  · intro h
    split at h
    · rename_i d
      split at h
      · simp at h
      · rename_i hdt
        split at h
        · simp at h
        · rename_i hkey
          refine ⟨d, rfl, by simpa using hdt, by simpa using hkey, by simpa using h⟩
    · simp at h
  · rintro ⟨d, rfl, hdt, hkey, hex⟩
    simp only [hdt, ne_eq, not_true_eq_false, if_false]
    rw [if_neg (by simpa using hkey)]
    simpa using hex

/-- The owned rows of a desired CNAME include the desired one. -/
theorem cname_copy (hn : nameDecision ownerID cleanup allowed [d] C = none) (ht : d.recordType = recordCNAME)
    (hc : c ∈ C) (ho : ownedBy c ownerID = true) : copies ownerID C d ≠ [] := by
  obtain ⟨-, h2, -⟩ := nameDecision_eq_none.1 hn
  have hct : c.recordType = recordCNAME :=
    cnameTypesConflict_cname (ht ▸ types_compatible hn (mem_singleton_self d) hc)
  intro hnil
  rw [eq_false_iff] at h2
  refine h2 (needsCNAMETargetReplacement_iff.2 ⟨d, rfl, ht, ?_, c, mem_owned.2 ⟨hc, ho⟩, hct⟩)
  intro r hr hk
  have : r ∈ copies ownerID C d := copies_mem.2 ⟨(mem_owned.1 hr).1, hk, (mem_owned.1 hr).2⟩
  rw [hnil] at this; simp at this

theorem groupPlan_create (hop : op ∈ groupPlan ownerID cleanup allowed D C) (ht : op.type = .create) :
    nameDecision ownerID cleanup allowed D C = none ∧ op.desired ∈ created ownerID cleanup allowed D C := by
  rcases mem_groupPlan.1 hop with hn | ⟨hn, hr⟩
  · rcases nameDecision_type hn with h | h <;> rw [h] at ht <;> simp at ht
  · refine ⟨hn, ?_⟩
    rcases mem_recordPlan.1 hr with ⟨e, -, hrec⟩ | ⟨e, -, hrep⟩ | ⟨e, he, rfl⟩ | ⟨-, c, -, hcl⟩
    · rcases recordOperation_eq_some.1 hrec with ⟨c, -, rfl⟩ | ⟨-, kept, -, -, rfl⟩ <;> simp at ht
    · rw [(recordReplacement_row hrep).2.1] at ht; simp at ht
    · exact he
    · rcases (cleanupOperation_current hcl).2.1 with h | h <;> rw [h] at ht <;> simp at ht

/-- A desired CNAME is missing only at a name without rows. -/
theorem cname_not_missing (h : NameOK g [d] C) (hn : nameDecision ownerID cleanup allowed [d] C = none)
    (ht : d.recordType = recordCNAME) (hC : C ≠ []) : missing ownerID [d] C = [] := by
  obtain ⟨c, hc⟩ := exists_mem_of_ne_nil _ hC
  rw [eq_nil_iff_forall_not_mem]
  intro e he
  obtain ⟨heD, hu, hk⟩ := missing_mem.1 he
  rw [mem_singleton.1 heD] at hu hk
  have hct : c.recordType = d.recordType := by
    rw [ht]; exact cnameTypesConflict_cname (ht ▸ types_compatible hn (mem_singleton_self d) hc)
  have hdw := h.desired d (mem_singleton_self d)
  have hl := (logicalKey_iff_type (h.rows c hc).1 hdw.1 ((h.rows c hc).2.trans hdw.2.symm)).2 hct
  exact cname_copy hn ht hc (unownedSiblings_eq_nil.1 hu c hc hl) hk

/-- **An in-place replacement happens at a name with one row**, if CNAMEs are alone there. -/
theorem replace_single_row (h : NameOK g D C) (hn : nameDecision ownerID cleanup allowed D C = some op)
    (hty : op.type = .replace) (hcons : ∀ c ∈ C, c.recordType = recordCNAME → C.length = 1) : C.length = 1 := by
  obtain ⟨e, c, hDe, hown, -, -, -, -, hsib, hnc, htr⟩ := nameDecision_replace hn hty
  have hcC : c ∈ C := (mem_owned.1 (by rw [hown]; exact mem_singleton_self c)).1
  have heD : e ∈ D := by rw [hDe]; exact mem_singleton_self e
  by_cases het : e.recordType = recordCNAME
  · -- an unowned row would exclude the CNAME or be in its logical record
    have hallown : ∀ x ∈ C, ownedBy x ownerID = true := by
      intro x hx
      by_contra hxo
      rw [not_eq_true] at hxo
      have hxt : x.recordType = recordCNAME :=
        cnameTypesConflict_cname (het ▸ (nameConflict_eq_none.1 hnc).2 e heD x hx hxo)
      have hl := (logicalKey_iff_type (h.rows x hx).1 (h.desired e heD).1
        ((h.rows x hx).2.trans (h.desired e heD).2.symm)).2 (hxt.trans het.symm)
      rw [unownedSiblings_eq_nil.1 hsib x hx hl] at hxo
      simp at hxo
    have hperm : (partitionOwned C ownerID).1.Perm C := by
      unfold partitionOwned
      exact (perm_insertionSort _ _).trans (List.Perm.of_eq (filter_eq_self.2 hallown))
    rw [← hperm.length_eq, hown]; rfl
  · have hct : c.recordType = recordCNAME := by
      rcases htr with ⟨htt, -⟩ | ⟨-, hconf⟩
      · exact absurd (needsCNAMETargetReplacement_single.1 htt).1 het
      · unfold cnameTypesConflict at hconf
        simpa [het] using (Bool.and_eq_true_iff.1 hconf).2
    exact hcons c hcC hct

/-- The record an operation writes over a row is a desired one, or the row's own. -/
theorem written_type (hn : ∀ op, nameDecision ownerID cleanup allowed D C = some op → op.desired ∈ D)
    (hop : op ∈ groupPlan ownerID cleanup allowed D C) (hdel : op.type ≠ .delete) :
    op.desired ∈ D ∨ op.desired.recordType = op.current.recordType := by
  by_cases hcar : op.type.carries = true
  · exact Or.inl (groupPlan_carries hn hop hcar)
  · have hde : op.type = .deactivate := by
      cases ht : op.type <;> simp [ht, OperationType.carries, OperationType.publishes] at hcar hdel ⊢
    rcases cleanupOperation_eq_some.1 (groupPlan_cleanup hop (Or.inr hde)).2.2 with ⟨-, h⟩ | ⟨-, -, h⟩
    · rw [h] at hde; simp at hde
    · right; rw [h]

/-- The keys of the created rows are distinct. -/
theorem newRows_keys (run : List (Operation × String)) :
    (run.filterMap (newRow ownerID)).map Endpoint.key =
      ((run.map Prod.fst).filter fun op => op.type = .create).map fun op => op.desired.key := by
  induction run with
  | nil => rfl
  | cons p run ih =>
    by_cases h : p.1.type = .create
    · have hn : newRow ownerID p = some (createdRow ownerID p.2 p.1.desired) := by simp [newRow, h]
      rw [filterMap_cons_some hn, map_cons, ih, map_cons,
        filter_cons_of_pos (by simpa using h), map_cons]
      rfl
    · have hn : newRow ownerID p = none := by simp [newRow, h]
      rw [filterMap_cons_none hn, ih, map_cons, filter_cons_of_neg (by simpa using h)]

theorem length_le_one_of_key {k : String} {l : List Endpoint} (hnd : (l.map Endpoint.key).Nodup)
    (hkey : ∀ x ∈ l, x.key = k) : l.length ≤ 1 := by
  match l with
  | [] => simp
  | [_] => simp
  | x :: y :: l =>
    rw [map_cons, map_cons, nodup_cons] at hnd
    have hx := hkey x (by simp)
    have hy := hkey y (by simp)
    exact absurd (by rw [hx, hy]; exact mem_cons_self) hnd.1

theorem newRow_mem (h : r ∈ run.filterMap (newRow ownerID)) :
    ∃ p ∈ run, p.1.type = .create ∧ r = createdRow ownerID p.2 p.1.desired := by
  obtain ⟨p, hp, hr⟩ := mem_filterMap.1 h
  unfold newRow at hr
  split at hr
  · rename_i hcr
    cases hr
    exact ⟨p, hp, hcr, rfl⟩
  · simp at hr

section

variable (hd : ∀ e ∈ desired, e.WellFormed) (ht : TableOK table)
  (hrun : PlannedRun rt desired table ownerID cleanup allowed run)

include hd ht hrun

theorem PlannedRun.newRows_keys_nodup : ((run.filterMap (newRow ownerID)).map Endpoint.key).Nodup := by
  rw [newRows_keys]
  have hnd := @plan_carries_nodup rt _ _ ownerID cleanup allowed hd ht.wf
  have hkeys := hnd.map_on (f := Endpoint.key) (fun a ha b hb h => by
    obtain ⟨x, hx, rfl⟩ := mem_map.1 ha
    obtain ⟨y, hy, rfl⟩ := mem_map.1 hb
    rw [mem_filter] at hx hy
    exact desiredValues_inj hd (mem_desiredOf.1 (plan_carries hd ht.wf hx.1 hx.2)).1
      (mem_desiredOf.1 (plan_carries hd ht.wf hy.1 hy.2)).1 h)
  rw [map_map] at hkeys
  refine hkeys.sublist (List.Sublist.map _ ?_)
  refine List.Sublist.trans ?_ (hrun.planned.filter _)
  -- creates are among the carrying operations
  have : ((run.map Prod.fst).filter fun op => op.type = .create) =
      ((run.map Prod.fst).filter fun op => op.type.carries).filter fun op => op.type = .create := by
    rw [filter_filter]
    apply filter_congr
    intro op _
    by_cases h : op.type = .create <;> simp [h, OperationType.carries, OperationType.publishes]
  rw [this]
  exact filter_sublist

/-- The new rows of a name are missing endpoints of that name. -/
theorem PlannedRun.newRow_missing
    (hr : r ∈ (run.filterMap (newRow ownerID)).filter fun c => c.mutationGroupKey = g) :
    nameDecision ownerID cleanup allowed (desiredOf desired g) (rowsOf table g) = none ∧
      ∃ e ∈ missing ownerID (desiredOf desired g) (rowsOf table g), ∃ id, r = createdRow ownerID id e := by
  rw [mem_filter, decide_eq_true_eq] at hr
  obtain ⟨p, hp, hcr, rfl⟩ := newRow_mem hr.1
  obtain ⟨-, hgr⟩ := hrun.desired_wf hd ht hp (by simp [hcr]) (by simp [hcr])
  have hg : p.1.group = g := hgr.symm.trans hr.2
  have hop := hrun.mem hd ht hp
  rw [hg] at hop
  obtain ⟨hn, hm⟩ := groupPlan_create hop hcr
  exact ⟨hn, _, (created_mem.1 hm).1, p.2, rfl⟩

/-- The operation about a row of a name is an operation of that name. -/
theorem PlannedRun.mem_of_row {p : Operation × String} (hp : p ∈ run) (hm : p.1.type.mutatesRow = true)
    (hg : p.1.current.mutationGroupKey = g) :
    p.1 ∈ groupPlan ownerID cleanup allowed (desiredOf desired g) (rowsOf table g) := by
  have hop := hrun.mem hd ht hp
  rwa [← (hrun.row hd ht hp hm).2.1, hg] at hop

/-- A CNAME row at a name is an old CNAME row, or the name's desired endpoints include a CNAME. -/
theorem PlannedRun.cname_origin (hc : c ∈ rowsOf table g) (hcr : rowAfter (run.map Prod.fst) c = some r)
    (hrt : r.recordType = recordCNAME) (hnoc : ∀ d ∈ desiredOf desired g, d.recordType ≠ recordCNAME) :
    c.recordType = recordCNAME := by
  obtain ⟨hct, hcg⟩ := mem_rowsOf.1 hc
  rcases hrun.rowAfter_cases hd ht hct with ⟨h1, -⟩ | ⟨p, hp, hm, hcur, h1⟩
  · rw [h1, Option.some.injEq] at hcr
    rw [hcr]; exact hrt
  · rw [h1] at hcr
    split at hcr
    · simp at hcr
    · rename_i hdel
      cases hcr
      have hop := hrun.mem_of_row hd ht hp hm (g := g) (by rw [hcur]; exact hcg)
      rcases written_type (fun _ h => nameDecision_desired hd h) hop hdel with h | h
      · exact absurd (show p.1.desired.recordType = recordCNAME from hrt) (hnoc _ h)
      · rw [← hcur, ← h]; exact hrt

/-- The new rows of a name with a single desired endpoint. -/
theorem PlannedRun.newRows_single (hDd : desiredOf desired g = [d]) :
    ((run.filterMap (newRow ownerID)).filter fun c => c.mutationGroupKey = g).length ≤ 1 := by
  have hnd : (((run.filterMap (newRow ownerID)).filter fun c => c.mutationGroupKey = g).map Endpoint.key).Nodup :=
    (hrun.newRows_keys_nodup hd ht).sublist (filter_sublist.map _)
  -- all of them have the key of `d`
  have hkey : ∀ x ∈ (run.filterMap (newRow ownerID)).filter fun c => c.mutationGroupKey = g, x.key = d.key := by
    intro x hx
    obtain ⟨-, e, he, id, rfl⟩ := hrun.newRow_missing hd ht hx
    have heD := (missing_mem.1 he).1
    rw [hDd, mem_singleton] at heD
    rw [heD]; rfl
  exact length_le_one_of_key hnd hkey

theorem PlannedRun.newRows_nil
    (h : nameDecision ownerID cleanup allowed (desiredOf desired g) (rowsOf table g) = none →
      missing ownerID (desiredOf desired g) (rowsOf table g) = []) :
    ((run.filterMap (newRow ownerID)).filter fun c => c.mutationGroupKey = g) = [] := by
  by_contra hne
  obtain ⟨x, hx⟩ := exists_mem_of_ne_nil _ hne
  obtain ⟨hn, e, he, -⟩ := hrun.newRow_missing hd ht hx
  rw [h hn] at he
  simp at he

/-- At most one row is left of a name that holds a CNAME. -/
theorem PlannedRun.cname_alone
    (hcons : ∀ c ∈ rowsOf table g, c.recordType = recordCNAME → (rowsOf table g).length = 1)
    (hr : r ∈ rowsOf (applyAll ownerID table run) g) (hrt : r.recordType = recordCNAME) :
    (rowsOf (applyAll ownerID table run) g).length ≤ 1 := by
  have hname := nameOK hd ht g
  rw [hrun.rowsOf_applyAll hd ht] at hr ⊢
  have hnil := hrun.newRows_nil hd ht (g := g)
  have hle : ((rowsOf table g).filterMap (rowAfter (run.map Prod.fst))).length ≤ (rowsOf table g).length :=
    length_filterMap_le _ _
  rw [length_append]
  cases hn : nameDecision ownerID cleanup allowed (desiredOf desired g) (rowsOf table g) with
  | some op =>
    have hN := hnil (by rw [hn]; simp)
    rw [hN] at hr ⊢
    rw [append_nil] at hr
    rw [length_nil]
    rcases nameDecision_type hn with hty | hty
    · -- a conflict: nothing is done at the name
      obtain ⟨c, hc, hcr⟩ := mem_filterMap.1 hr
      obtain ⟨hct, hcg⟩ := mem_rowsOf.1 hc
      rcases hrun.rowAfter_cases hd ht hct with ⟨h1, -⟩ | ⟨p, hp, hm, hcur, -⟩
      · rw [h1, Option.some.injEq] at hcr
        have := hcons c hc (hcr ▸ hrt)
        omega
      · have hop := hrun.mem_of_row hd ht hp hm (g := g) (by rw [hcur]; exact hcg)
        rcases mem_groupPlan.1 hop with h | ⟨h, -⟩
        · rw [hn, Option.some.injEq] at h
          rw [← h, hty] at hm; simp [OperationType.mutatesRow] at hm
        · rw [hn] at h; simp at h
    · have := replace_single_row hname hn hty hcons
      omega
  | none =>
    by_cases hcn : ∃ d ∈ desiredOf desired g, d.recordType = recordCNAME
    · -- a desired CNAME is the only desired endpoint, and all rows are CNAMEs
      obtain ⟨d, hdD, hdt⟩ := hcn
      have hDd := desiredSet_cname (nameConflict_eq_none.1 (nameDecision_eq_none.1 hn).1).1 hdD hdt
      by_cases hC : rowsOf table g = []
      · have := hrun.newRows_single hd ht hDd
        rw [hC, filterMap_nil, length_nil]
        omega
      · obtain ⟨c, hc⟩ := exists_mem_of_ne_nil _ hC
        have h1 := hcons c hc (cnameTypesConflict_cname (hdt ▸ types_compatible hn hdD hc))
        rw [hDd] at hn hname
        rw [hnil (fun _ => by rw [hDd]; exact cname_not_missing hname hn hdt hC), length_nil]
        omega
    · -- a CNAME row that is left was there before, and then nothing was desired
      have hnoc : ∀ d ∈ desiredOf desired g, d.recordType ≠ recordCNAME := fun d hdD h => hcn ⟨d, hdD, h⟩
      rcases mem_append.1 hr with hr | hr
      · obtain ⟨c, hc, hcr⟩ := mem_filterMap.1 hr
        have hct := hrun.cname_origin hd ht hc hcr hrt hnoc
        have hD0 : desiredOf desired g = [] := by
          by_contra h
          obtain ⟨d, hdD⟩ := exists_mem_of_ne_nil _ h
          have hcomp := types_compatible hn hdD hc
          rw [cnameTypesConflict_comm, hct] at hcomp
          exact hnoc d hdD (cnameTypesConflict_cname hcomp)
        rw [hnil (fun _ => by rw [hD0]; rfl), length_nil]
        have := hcons c hc hct
        omega
      · obtain ⟨-, e, he, id, rfl⟩ := hrun.newRow_missing hd ht hr
        exact absurd hrt (hnoc e (missing_mem.1 he).1)

end

theorem cnameConsistent_iff (hwf : ∀ c ∈ table, c.WellFormed) :
    CNAMEConsistent table ↔
      ∀ g, ∀ r ∈ rowsOf table g, r.recordType = recordCNAME → (rowsOf table g).length = 1 := by
  have hrows : ∀ r ∈ table, (table.filter fun c => c.zone = r.zone ∧ c.dnsName = r.dnsName) =
      rowsOf table r.mutationGroupKey := by
    intro r hr
    apply filter_congr
    intro c hc
    rw [decide_eq_decide, group_eq_iff (hwf c hc) (hwf r hr)]
  constructor
  · intro h g r hr hrt
    obtain ⟨hrm, rfl⟩ := mem_rowsOf.1 hr
    rw [← hrows r hrm]
    exact h r hrm hrt
  · intro h r hr hrt
    rw [hrows r hr]
    exact h _ r (mem_rowsOf.2 ⟨hr, rfl⟩) hrt

theorem freshIDs_append {run' : List (Operation × String)} (h : FreshIDs ownerID table (run ++ run')) :
    FreshIDs ownerID table run := by
  induction run generalizing table with
  | nil => trivial
  | cons p run ih => exact ⟨h.1, ih h.2⟩

/-- What has taken effect after some attempts at a plan is a planned run. -/
theorem plannedRun_take {attempts : List (Operation × Option String)}
    (hplan : attempts.map Prod.fst = buildWithCleanupScope rt desired table ownerID cleanup allowed)
    (hfresh : FreshIDs ownerID table (executed attempts)) (k : Nat) :
    PlannedRun rt desired table ownerID cleanup allowed (executed (attempts.take k)) where
  planned := by
    have hex : ∀ l : List (Operation × Option String), ((executed l).map Prod.fst).Sublist (l.map Prod.fst) := by
      intro l
      induction l with
      | nil => exact List.Sublist.refl _
      | cons p l ih =>
        unfold executed at ih ⊢
        cases h : p.2 with
        | none => rw [filterMap_cons_none (by simp [h])]; exact ih.cons _
        | some id =>
          rw [filterMap_cons_some (b := (p.1, id)) (by simp [h])]
          exact ih.cons_cons _
    rw [← hplan]
    exact (hex _).trans ((take_sublist k attempts).map _)
  fresh := by
    refine @freshIDs_append _ _ _ (executed (attempts.drop k)) ?_
    unfold executed at hfresh ⊢
    rw [← filterMap_append, take_append_drop]
    exact hfresh

/-- **CNAME exclusivity survives every partial apply**: after each of the attempted operations
of a plan, whichever of them failed. -/
theorem cname_exclusive (rt : Runtime) (desired table : List Endpoint) (ownerID : String)
    (cleanup : CleanupPolicy) (allowed : Endpoint → Bool) (hd : ∀ e ∈ desired, e.WellFormed) (ht : TableOK table)
    (hcons : CNAMEConsistent table) (attempts : List (Operation × Option String))
    (hplan : attempts.map Prod.fst = buildWithCleanupScope rt desired table ownerID cleanup allowed)
    (hfresh : FreshIDs ownerID table (executed attempts)) (k : Nat) :
    CNAMEConsistent (applyAll ownerID table (executed (attempts.take k))) := by
  have hrun := plannedRun_take hplan hfresh k
  rw [cnameConsistent_iff ht.wf] at hcons
  rw [cnameConsistent_iff (hrun.table_ok hd ht).wf]
  intro g r hr hrt
  exact le_antisymm (hrun.cname_alone hd ht (hcons g) hr hrt) (length_pos_of_mem hr)

/-- The type change of an owned A row to a CNAME, next to a failing create of another name. -/
theorem cname_exclusive_transition :
    let e : Endpoint := { dnsName := "www", recordType := "CNAME", targets := ["web.lan"], zone := "lan" }
    let f : Endpoint := { e with dnsName := "ftp", targets := ["files.lan"] }
    let row : Endpoint :=
      { e with recordType := "A", targets := ["192.0.2.1"], ownerID := "me", providerID := "1" }
    let plan := buildWithCleanupScope .plain [e, f] [row] "me" .delete fun _ => true
    let attempts := plan.map fun op => (op, if op.type = .create then none else some "")
    plan.map (fun op => (op.type, op.desired)) = [(.replace, e), (.create, f)] ∧
      CNAMEConsistent (applyAll "me" [row] (executed (attempts.take 2))) := by
  intro e f row plan attempts
  exact ⟨by decide +kernel, cname_exclusive .plain [e, f] [row] "me" .delete (fun _ => true) (by decide +kernel)
    (by decide +kernel) (by decide +kernel) attempts (by decide +kernel) (by decide +kernel) 2⟩

end FortigateDns
