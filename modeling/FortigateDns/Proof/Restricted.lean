import FortigateDns.Proof.Exclusive
import FortigateDns.Spec.Runner

/-!
# Restricted exclusive ownership

With restricted discovery an existing row is adopted only when it is exactly a desired record,
and a name whose rows are not exactly the desired records is one conflict. What is left to the
planner are names without rows of their own (`unowned_plan`) and names that are as desired
(`exact_plan`), so no operation touches an existing row.
-/

namespace FortigateDns

open Go GoMap List

variable {rt : Runtime} {desired current D C : List Endpoint} {ownerID : String} {cleanup : CleanupPolicy}
variable {allowed : Endpoint → Bool} {g : String} {op : Operation}
variable {c : Endpoint}

/-- Without owned rows a name gets creates and conflicts only. -/
theorem unowned_plan (hC : ∀ c ∈ C, ownedBy c ownerID = false)
    (hop : op ∈ groupPlan ownerID cleanup allowed D C) :
    op.type = .create ∨ op.type = .conflict := by
  cases ht : op.type.mutatesRow with
  | true =>
    obtain ⟨hrow, hown, -⟩ := groupPlan_row hop ht
    rw [hC _ hrow] at hown
    simp at hown
  | false => cases h : op.type <;> simp [h, OperationType.mutatesRow] at ht ⊢

/-- A name without desired endpoints and owned rows gets nothing. -/
theorem undesired_plan (hC : ∀ c ∈ C, ownedBy c ownerID = false) :
    op ∉ groupPlan ownerID cleanup allowed [] C := by
  intro hop
  have howned : (partitionOwned C ownerID).1 = [] := by
    rw [eq_nil_iff_forall_not_mem]
    intro c hc
    obtain ⟨hcC, hown⟩ := mem_owned.1 hc
    rw [hC c hcC] at hown
    simp at hown
  have hn : nameDecision ownerID cleanup allowed [] C = none := by
    rw [nameDecision_eq_none, howned]
    exact ⟨rfl, rfl, rfl⟩
  rcases mem_groupPlan.1 hop with h | ⟨-, h⟩
  · rw [hn] at h
    simp at h
  · rcases mem_recordPlan.1 h with ⟨e, he, -⟩ | ⟨e, he, -⟩ | ⟨e, he, -⟩ | ⟨-, c, hc, -⟩
    · simp at he
    · simp [missing] at he
    · simp [created, missing] at he
    · obtain ⟨hcC, hown, -⟩ := stale_owned (leftover_row hc).1
      rw [hC c hcC] at hown
      simp at hown

/-- The owned rows of a name are exactly its desired endpoints. -/
structure ExactName (ownerID : String) (D C : List Endpoint) : Prop where
  keys : (D.map Endpoint.key).Nodup
  owned : ∀ c ∈ C, ownedBy c ownerID = true → ∃ e ∈ D, c.key = e.key ∧ c.recordType = e.recordType ∧
    c.equalRecord e = true
  once : ∀ e ∈ D, ∃ c, copies ownerID C e = [c]
  siblings : ∀ e ∈ D, unownedSiblings ownerID C e = []

/-- A name that is exactly as desired is left alone, unless it is a conflict as a whole. -/
theorem exact_plan (h : ExactName ownerID D C) (hop : op ∈ groupPlan ownerID cleanup allowed D C) :
    op.type = .conflict := by
  rcases mem_groupPlan.1 hop with hn | ⟨-, hr⟩
  · rcases nameDecision_type hn with ht | ht
    · exact ht
    -- a replacement would need a type or a target that no row has
    obtain ⟨e, c, rfl, hown, -, -, -, -, -, hnone, hcases⟩ := nameDecision_replace hn ht
    have hc : c ∈ (partitionOwned C ownerID).1 := by rw [hown]; exact mem_singleton_self c
    obtain ⟨e', he', hkey, htype, -⟩ := h.owned c (mem_owned.1 hc).1 (mem_owned.1 hc).2
    obtain rfl := mem_singleton.1 he'
    rcases hcases with ⟨hneeds, -⟩ | ⟨-, htypes⟩
    · obtain ⟨d, hd, -, hnokey, -⟩ := needsCNAMETargetReplacement_iff.1 hneeds
      obtain rfl := List.cons.inj hd |>.1
      exact absurd hkey (hnokey c (mem_singleton_self c))
    · rw [htype] at htypes
      simp [cnameTypesConflict] at htypes
  · have hmissing : missing ownerID D C = [] := by
      rw [eq_nil_iff_forall_not_mem]
      intro e he
      obtain ⟨heD, -, hnone⟩ := missing_mem.1 he
      obtain ⟨c, hc⟩ := h.once e heD
      rw [hc] at hnone
      simp at hnone
    have hstale : stale ownerID allowed D C = [] := by
      rw [eq_nil_iff_forall_not_mem]
      intro c hc
      rcases mem_stale.1 hc with ⟨e, he, hdup⟩ | ⟨hcC, horph⟩
      · obtain ⟨kept, hkept⟩ := h.once e he
        unfold duplicatesOf at hdup
        rw [hkept] at hdup
        simp at hdup
      · obtain ⟨hkey, -, hown, -⟩ := orphaned_iff.1 horph
        obtain ⟨e, he, hce, -⟩ := h.owned c hcC hown
        exact hkey (mem_map.2 ⟨e, he, hce.symm⟩)
    rcases mem_recordPlan.1 hr with ⟨e, he, hrec⟩ | ⟨e, he, -⟩ | ⟨e, he, -⟩ | ⟨-, c, hc, -⟩
    · rcases recordOperation_eq_some.1 hrec with ⟨c, -, rfl⟩ | ⟨-, kept, hkept, hdiff, rfl⟩
      · rfl
      · obtain ⟨hkC, hkey, hown⟩ := head_copies hkept
        obtain ⟨e', he', hkey', -, heq⟩ := h.owned kept hkC hown
        obtain rfl := inj_on_of_nodup_map h.keys he' he (hkey'.symm.trans hkey)
        rw [heq] at hdiff
        simp at hdiff
    · rw [hmissing] at he
      simp at he
    · simp [created, hmissing] at he
    · have := (leftover_row hc).1
      rw [hstale] at this
      simp at this

/-- An A, AAAA or CNAME row. -/
def addressRow (c : Endpoint) : Bool :=
  c.recordType == recordA || c.recordType == recordAAAA || c.recordType == recordCNAME

/-- The A, AAAA and CNAME rows of a name. -/
def addressRows (current : List Endpoint) (g : String) : List Endpoint := (rowsOf current g).filter addressRow

theorem adoptable_eq (hc : c.WellFormed) : adoptableRecordType c.recordType = addressRow c := by
  have htype := congrArg Endpoint.recordType hc.fixed
  unfold Endpoint.normalize at htype
  simp only at htype
  unfold adoptableRecordType addressRow
  rw [htype]

theorem mem_addressRows :
    c ∈ addressRows current g ↔ c ∈ current ∧ c.mutationGroupKey = g ∧ addressRow c = true := by
  unfold addressRows
  rw [mem_filter, mem_rowsOf, and_assoc]

theorem relabel_wf (hc : c.WellFormed) (owner : String) :
    ({ c with ownerID := owner } : Endpoint).WellFormed := WellFormed.of_record hc rfl rfl rfl rfl

theorem relabel_group (c : Endpoint) (owner : String) :
    ({ c with ownerID := owner } : Endpoint).mutationGroupKey = c.mutationGroupKey := by
  simp only [Endpoint.mutationGroupKey, Endpoint.normalize]

theorem ownedBy_blank (howner : trimSpace ownerID ≠ "") (c : Endpoint) :
    ownedBy { c with ownerID := "" } ownerID = false := by
  have hempty : trimSpace "" = "" := by decide
  simp [ownedBy, hempty, Ne.symm howner]

/-- What unrestricted ownership adopts. -/
theorem adoptRow_owned (howner : trimSpace ownerID ≠ "") (hc : c.WellFormed)
    (h : ownedBy (adoptRow ownerID c) ownerID = true) : addressRow (adoptRow ownerID c) = true := by
  unfold adoptRow at h ⊢
  rw [adoptable_eq hc] at h
  cases haddr : addressRow c with
  | true =>
    simp only [addressRow] at haddr ⊢
    exact haddr
  | false =>
    rw [haddr, if_neg Bool.false_ne_true, ownedBy_blank howner c] at h
    simp at h

/-- A row that is exactly a desired record. -/
def ExactRow (desired : List Endpoint) (c : Endpoint) : Prop :=
  ∃ d, (indexDesired desired).lookup c.key = some d ∧ c.equalRecord d = true

/-- **What restricted ownership adopts.** -/
theorem adoptExactRow_owned (howner : trimSpace ownerID ≠ "") (hc : c.WellFormed) :
    ownedBy (adoptExactRow (indexDesired desired) ownerID c) ownerID = true ↔
      addressRow c = true ∧ ExactRow desired c := by
  have hkey : ({ c with ownerID := "" } : Endpoint).key = c.key := rfl
  have hrecord : ∀ d, ({ c with ownerID := "" } : Endpoint).equalRecord d = c.equalRecord d := fun _ => rfl
  unfold adoptExactRow ExactRow
  rw [(relabel_wf hc "").fixed, adoptable_eq hc]
  dsimp only
  rw [hkey]
  simp only [hrecord]
  cases hrow : addressRow c with
  | false => simp [ownedBy_blank howner c]
  | true =>
    cases hlook : (indexDesired desired).lookup c.key with
    | none => simp [ownedBy_blank howner c]
    | some d =>
      cases heq : c.equalRecord d with
      | false => simp [heq, ownedBy_blank howner c]
      | true => simp [heq, ownedBy]

/-- Adoption changes nothing but the owner. -/
theorem adoptExactRow_record (ownerID : String) (m : GoMap Endpoint) (c : Endpoint) :
    ∃ owner, adoptExactRow m ownerID c = { c with ownerID := owner } := ⟨_, rfl⟩

theorem adoptExactRow_keys (m : GoMap Endpoint) (c : Endpoint) :
    (adoptExactRow m ownerID c).key = c.key ∧ (adoptExactRow m ownerID c).logicalKey = c.logicalKey ∧
      (adoptExactRow m ownerID c).mutationGroupKey = c.mutationGroupKey := by
  obtain ⟨owner, h⟩ := adoptExactRow_record ownerID m c
  rw [h]
  simp only [Endpoint.key, Endpoint.logicalKey, Endpoint.mutationGroupKey, Endpoint.normalize, and_self]

theorem adoptExactRow_equal (m : GoMap Endpoint) (c d : Endpoint) :
    (adoptExactRow m ownerID c).recordType = c.recordType ∧
      (adoptExactRow m ownerID c).equalRecord d = c.equalRecord d := by
  obtain ⟨owner, h⟩ := adoptExactRow_record ownerID m c
  rw [h]
  simp only [Endpoint.equalRecord, Endpoint.normalize, and_self]

theorem adopted_wf (ownerID : String) (hc : ∀ c ∈ current, c.WellFormed) (m : GoMap Endpoint) :
    ∀ c ∈ current.map (adoptExactRow m ownerID), c.WellFormed := by
  intro c hmem
  obtain ⟨o, ho, rfl⟩ := mem_map.1 hmem
  exact relabel_wf (hc o ho) _

/-- The rows of a name, adopted. -/
theorem rowsOf_adopted (m : GoMap Endpoint) :
    rowsOf (current.map (adoptExactRow m ownerID)) g = (rowsOf current g).map (adoptExactRow m ownerID) := by
  unfold rowsOf
  rw [filter_map]
  refine congrArg (List.map _) (filter_congr fun c _ => ?_)
  simp only [Function.comp_apply, (adoptExactRow_keys m c).2.2]

/-- The rows are the desired records, without duplicates and up to order. -/
def SameRecords (rows D : List Endpoint) : Prop :=
  ∃ D', D'.Perm D ∧ List.Forall₂ (fun r d => r.equalRecord d = true) rows D'

theorem restrictedRecordSetsMatch_iff {m : GoMap Endpoint} {rows : List Endpoint} {seen : List String} :
    restrictedRecordSetsMatch m seen rows = true ↔
      (∀ c ∈ rows, ∃ d, m.lookup c.key = some d ∧ c.equalRecord d = true) ∧ (rows.map Endpoint.key).Nodup ∧
        ∀ c ∈ rows, c.key ∉ seen := by
  induction rows generalizing seen with
  | nil => simp [restrictedRecordSetsMatch]
  | cons c rest ih =>
    unfold restrictedRecordSetsMatch
    cases hlook : m.lookup c.key with
    | none =>
      simp only [Bool.false_eq_true, false_iff]
      rintro ⟨h, -⟩
      obtain ⟨d, hd, -⟩ := h c mem_cons_self
      rw [hlook] at hd
      simp at hd
    | some d =>
      by_cases heq : c.equalRecord d = true
      · by_cases hseen : c.key ∈ seen
        · simp [heq, hseen]
        dsimp only
        rw [heq, Bool.not_true, if_neg Bool.false_ne_true, if_neg (by simpa using hseen), ih, map_cons,
          nodup_cons]
        constructor
        · rintro ⟨hmatch, hnd, hnot⟩
          refine ⟨forall_mem_cons.2 ⟨⟨d, hlook, heq⟩, hmatch⟩, ⟨fun hk => ?_, hnd⟩,
            forall_mem_cons.2 ⟨hseen, fun x hx hk => hnot x hx (mem_cons_of_mem _ hk)⟩⟩
          obtain ⟨x, hx, hxk⟩ := mem_map.1 hk
          exact hnot x hx (hxk ▸ mem_cons_self)
        · rintro ⟨hmatch, ⟨hk, hnd⟩, hnot⟩
          refine ⟨(forall_mem_cons.1 hmatch).2, hnd, fun x hx hxk => ?_⟩
          rcases mem_cons.1 hxk with h | h
          · exact hk (mem_map.2 ⟨x, hx, h⟩)
          · exact hnot x (mem_cons_of_mem _ hx) h
      · simp only [heq, Bool.not_false, if_true, Bool.false_eq_true, false_iff]
        rintro ⟨h, -⟩
        obtain ⟨d', hd', heq'⟩ := h c mem_cons_self
        rw [hlook] at hd'
        obtain rfl := Option.some.inj hd'
        exact heq heq'

/-- Rows of a name that are desired records have their keys. -/
theorem key_of_equalRecord {r d : Endpoint} (hr : r.WellFormed) (hd : d.WellFormed)
    (hg : r.mutationGroupKey = d.mutationGroupKey) (h : r.equalRecord d = true) : r.key = d.key := by
  obtain ⟨hname, htype, -, -, htargets⟩ := (equalRecord_iff hr hd).1 h
  exact (key_eq_iff hr hd).2 ⟨((group_eq_iff hr hd).1 hg).1, hname, htype, htargets⟩

/-- **What the comparison of record sets decides.** -/
theorem sameRecords_iff (hd : ∀ e ∈ desired, e.WellFormed) {rows : List Endpoint}
    (hrows : ∀ c ∈ rows, c.WellFormed ∧ c.mutationGroupKey = g) :
    SameRecords rows (desiredOf desired g) ↔ rows.length = (desiredOf desired g).length ∧
      (∀ c ∈ rows, ExactRow desired c) ∧ (rows.map Endpoint.key).Nodup := by
  constructor
  · rintro ⟨D', hperm, hmatch⟩
    have hD : ∀ d ∈ D', d.WellFormed ∧ d.mutationGroupKey = g := fun d hd' =>
      ⟨wf_of_mem_desiredOf hd (hperm.mem_iff.1 hd'), (mem_desiredOf.1 (hperm.mem_iff.1 hd')).2⟩
    have hkeys : rows.map Endpoint.key = D'.map Endpoint.key := by
      clear hperm
      induction hmatch with
      | nil => rfl
      | @cons r d rows D' h _ ih =>
        have hr := hrows r mem_cons_self
        have hd' := hD d mem_cons_self
        rw [map_cons, map_cons, key_of_equalRecord hr.1 hd'.1 (hr.2.trans hd'.2.symm) h,
          ih (fun c hc => hrows c (mem_cons_of_mem _ hc)) fun c hc => hD c (mem_cons_of_mem _ hc)]
    refine ⟨hmatch.length_eq.trans hperm.length_eq, fun c hc => ?_, ?_⟩
    · obtain ⟨d, hdD, heq⟩ : ∃ d ∈ D', c.equalRecord d = true := by
        clear hkeys hperm hD hrows
        induction hmatch with
        | nil => simp at hc
        | @cons r d rows D' h _ ih =>
          rcases mem_cons.1 hc with rfl | hc
          · exact ⟨d, mem_cons_self, h⟩
          · obtain ⟨d', hd', heq⟩ := ih hc
            exact ⟨d', mem_cons_of_mem _ hd', heq⟩
      refine ⟨d, ?_, heq⟩
      rw [key_of_equalRecord (hrows c hc).1 (hD d hdD).1 ((hrows c hc).2.trans (hD d hdD).2.symm) heq]
      exact (mem_desiredValues hd).1 (mem_desiredOf.1 (hperm.mem_iff.1 hdD)).1
    · rw [hkeys]
      exact ((hperm.map _).nodup_iff).2 (desiredOf_keys_nodup hd g)
  · rintro ⟨hlen, hexact, hnd⟩
    -- distinct rows pick distinct records, as many as there are
    choose! pick hpick using hexact
    have hmem : ∀ c ∈ rows, pick c ∈ desiredOf desired g := by
      intro c hc
      obtain ⟨hlook, heq⟩ := hpick c hc
      obtain ⟨hval, hkey⟩ := lookup_indexDesired_mem hd hlook
      rw [hkey] at hlook
      refine mem_desiredOf.2 ⟨(mem_desiredValues hd).2 hlook, ?_⟩
      rw [← (hrows c hc).2]
      exact group_of_key (hd _ hval) (hrows c hc).1 hkey.symm
    have hkeys : (rows.map pick).map Endpoint.key = rows.map Endpoint.key := by
      rw [map_map]
      refine map_congr_left fun c hc => ?_
      exact (lookup_indexDesired_mem hd (hpick c hc).1).2.symm
    have hpicknd : (rows.map pick).Nodup := List.Nodup.of_map Endpoint.key (hkeys ▸ hnd)
    refine ⟨rows.map pick, ?_, ?_⟩
    · refine (subperm_of_subset hpicknd fun d hd' => ?_).perm_of_length_le ?_
      · obtain ⟨c, hc, rfl⟩ := mem_map.1 hd'
        exact hmem c hc
      · rw [length_map, hlen]
    · rw [forall₂_map_right_iff]
      exact forall₂_same.2 fun c hc => (hpick c hc).2

/-- The rows that the comparison of a name looks at. -/
theorem slice_addressRows (hc : ∀ c ∈ current, c.WellFormed) :
    (groupBy Endpoint.mutationGroupKey ((current.filter fun c => adoptableRecordType c.recordType).map
      fun c => { c with ownerID := "" }.normalize)).slice g =
      (addressRows current g).map fun c => { c with ownerID := "" } := by
  have hclear : ((current.filter fun c => adoptableRecordType c.recordType).map
      fun c => ({ c with ownerID := "" } : Endpoint).normalize) =
      (current.filter addressRow).map fun c => { c with ownerID := "" } := by
    rw [filter_congr fun c hcm => adoptable_eq (hc c hcm)]
    exact map_congr_left fun c hcm => (relabel_wf (hc c (mem_of_mem_filter hcm)) "").fixed
  rw [slice_groupBy, hclear, filter_map]
  refine congrArg (List.map _) ?_
  unfold addressRows rowsOf
  rw [filter_filter, filter_filter]
  refine filter_congr fun c _ => ?_
  simp only [Function.comp_apply, relabel_group, Bool.and_comm]

/-- The comparison of a name, whatever order its desired endpoints come in. -/
theorem restrictedRecordSetsEqual_iff (hd : ∀ e ∈ desired, e.WellFormed) (hc : ∀ c ∈ current, c.WellFormed)
    {values : List Endpoint} (hvalues : values.Perm (desiredOf desired g)) :
    restrictedRecordSetsEqual ((addressRows current g).map fun c => { c with ownerID := "" }) values
      (indexDesired desired) = true ↔ SameRecords (addressRows current g) (desiredOf desired g) := by
  have hkey : ∀ c : Endpoint, ({ c with ownerID := "" } : Endpoint).key = c.key := fun c => by
    simp only [Endpoint.key, Endpoint.normalize]
  have hlook : ∀ c : Endpoint, (indexDesired desired).lookup ({ c with ownerID := "" } : Endpoint).key =
      (indexDesired desired).lookup c.key := fun c => congrArg (fun k => (indexDesired desired).lookup k) (hkey c)
  have hequal : ∀ c d : Endpoint, ({ c with ownerID := "" } : Endpoint).equalRecord d = c.equalRecord d :=
    fun c d => by simp only [Endpoint.equalRecord, Endpoint.normalize]
  unfold restrictedRecordSetsEqual
  rw [sameRecords_iff hd fun c hcm => ⟨hc c (mem_addressRows.1 hcm).1, (mem_addressRows.1 hcm).2.1⟩,
    Bool.and_eq_true, beq_iff_eq, length_map, hvalues.length_eq, restrictedRecordSetsMatch_iff, map_map]
  simp only [forall_mem_map, hkey, hlook, hequal, not_mem_nil, not_false_eq_true, implies_true, and_true,
    ExactRow, Function.comp_def]

/-- Which names are conflicts. -/
theorem lookup_restrictedConflicts (rt : Runtime) (hd : ∀ e ∈ desired, e.WellFormed)
    (hc : ∀ c ∈ current, c.WellFormed) :
    (restrictedConflicts rt (indexDesired desired) current).lookup g = none ∧
        (desiredOf desired g = [] ∨ addressRows current g = [] ∨
          SameRecords (addressRows current g) (desiredOf desired g)) ∨
      ∃ conflict, (restrictedConflicts rt (indexDesired desired) current).lookup g = some conflict ∧
        conflict.desired ∈ desiredOf desired g ∧ addressRows current g ≠ [] ∧
        ¬SameRecords (addressRows current g) (desiredOf desired g) := by
  set values := (rt.range .ownedDesired (indexDesired desired)).map Prod.snd
  have hperm : (values.filter fun e => e.mutationGroupKey = g).Perm (desiredOf desired g) :=
    ((rangeValues_perm rt .ownedDesired).filter _).trans (desiredOf_perm g).symm
  set rows := groupBy Endpoint.mutationGroupKey ((current.filter fun c => adoptableRecordType c.recordType).map
    fun c => ({ c with ownerID := "" } : Endpoint).normalize) with hrows
  set verdict : String → List Endpoint → Option RestrictedOwnershipConflict := fun k D =>
    if (rows.slice k).isEmpty || restrictedRecordSetsEqual (rows.slice k) D (indexDesired desired) then none
    else some
      { desired := (sortEndpointsForConflict rt D).headD {}
        current := (sortEndpointsForConflict rt (rows.slice k)).headD {} } with hverdict
  have hlookup : (restrictedConflicts rt (indexDesired desired) current).lookup g =
      ((groupBy Endpoint.mutationGroupKey values).lookup g).bind (verdict g) := by
    have hfold : restrictedConflicts rt (indexDesired desired) current =
        ((groupBy Endpoint.mutationGroupKey values).range (rt.order .ownedGroups)).foldl
          (fun m (p : String × List Endpoint) => ((verdict p.1 p.2).map (m.set p.1)).getD m) ∅ := by
      unfold restrictedConflicts
      refine congrArg (fun f => List.foldl f _ _) (funext fun m => funext fun p => ?_)
      simp only [hverdict]
      split <;> rfl
    rw [hfold, lookup_foldl_range verdict g _ _ (range_keys_nodup (rt.order_perm _) _),
      find?_range (rt.order_perm _)]
    cases (groupBy Endpoint.mutationGroupKey values).lookup g <;> simp
  rw [hlookup, lookup_groupBy]
  split
  swap
  · -- no desired endpoint at the name
    rename_i hmem
    refine Or.inl ⟨rfl, Or.inl ?_⟩
    have hnil : (values.filter fun e => e.mutationGroupKey = g) = [] := by
      rw [filter_eq_nil_iff]
      intro e he heq
      exact hmem (mem_map.2 ⟨e, he, by simpa using heq⟩)
    rw [hnil] at hperm
    exact hperm.nil_eq.symm
  rename_i hmem
  rw [Option.bind_some]
  simp only [hverdict]
  rw [hrows, slice_addressRows hc]
  by_cases hempty : addressRows current g = []
  · simp [hempty]
  by_cases hsame : SameRecords (addressRows current g) (desiredOf desired g)
  · rw [if_pos (by rw [(restrictedRecordSetsEqual_iff hd hc hperm).2 hsame, Bool.or_true])]
    exact Or.inl ⟨rfl, Or.inr (Or.inr hsame)⟩
  rw [if_neg]
  swap
  · rw [Bool.or_eq_true, not_or]
    exact ⟨by simpa using hempty, fun h => hsame ((restrictedRecordSetsEqual_iff hd hc hperm).1 h)⟩
  refine Or.inr ⟨_, rfl, ?_, hempty, hsame⟩
  have hsort : (sortEndpointsForConflict rt (values.filter fun e => e.mutationGroupKey = g)).Perm
      (desiredOf desired g) :=
    ((perm_insertionSort _ _).trans (rt.tieEndpoints_perm _)).trans hperm
  have hne : sortEndpointsForConflict rt (values.filter fun e => e.mutationGroupKey = g) ≠ [] := by
    intro h
    rw [h] at hsort
    obtain ⟨e, he, heg⟩ := mem_map.1 hmem
    have := hperm.mem_iff.1 (mem_filter.2 ⟨he, by simpa using heg⟩)
    rw [hsort.nil_eq.symm] at this
    simp at this
  obtain ⟨e, rest, hcons⟩ := exists_cons_of_ne_nil hne
  dsimp only
  rw [hcons] at hsort ⊢
  exact hsort.mem_iff.1 mem_cons_self

/-- Conflicts that are about desired endpoints of their names. -/
def ConflictsOf (desired : List Endpoint) (m : GoMap RestrictedOwnershipConflict) : Prop :=
  ∀ g conflict, m.lookup g = some conflict → conflict.desired ∈ desiredOf desired g

theorem restrictedConflicts_of (rt : Runtime) (hd : ∀ e ∈ desired, e.WellFormed)
    (hc : ∀ c ∈ current, c.WellFormed) :
    ConflictsOf desired (restrictedConflicts rt (indexDesired desired) current) := by
  intro g conflict hlook
  rcases lookup_restrictedConflicts (g := g) rt hd hc with ⟨hnone, -⟩ | ⟨x, hx, hmem, -⟩
  · rw [hnone] at hlook
    simp at hlook
  · obtain rfl := Option.some.inj (hx.symm.trans hlook)
    exact hmem

/-- A name of conflicts keeps none of the planner's operations. -/
theorem enforce_some (ops : List Operation) {m : GoMap RestrictedOwnershipConflict}
    (hm : ∀ g c, m.lookup g = some c → c.desired.dnsName ≠ "" ∧ c.desired.mutationGroupKey = g)
    {conflict : RestrictedOwnershipConflict} (h : m.lookup g = some conflict) :
    ∃ op, op.type = .conflict ∧
      (enforceRestrictedOwnershipConflicts ops m).filter (fun op => op.group = g) = [op] := by
  have hmem : g ∈ m.keys := AList.mem_keys.1 (AList.lookup_isSome.1 (by rw [h]; rfl))
  unfold enforceRestrictedOwnershipConflicts
  rw [if_neg (by rw [List.isEmpty_iff]; exact ne_nil_of_mem hmem), filter_append]
  have hkept : (ops.filter fun op => !(m.lookup (if op.desired.dnsName = "" then op.current
      else op.desired).mutationGroupKey).isSome).filter (fun op => op.group = g) = [] := by
    rw [filter_filter, filter_eq_nil_iff]
    intro op _
    rw [Bool.and_eq_true, not_and, Bool.not_eq_true', decide_eq_true_eq]
    intro hg
    have hgroup : (if op.desired.dnsName = "" then op.current else op.desired).mutationGroupKey = g := by
      rw [← hg]
      unfold Operation.group
      by_cases hname : op.desired.dnsName = "" <;> simp [hname]
    rw [hgroup, h]
    simp
  rw [hkept, append_nil, filter_filterMap_group (u := id) g fun k _ op hop => ?_]
  swap
  · obtain ⟨c, hc, rfl⟩ := Option.map_eq_some_iff.1 hop
    obtain ⟨hname, hgroup⟩ := hm k c hc
    unfold Operation.group
    rw [if_pos hname]
    exact hgroup
  have hone : (m.keys.insertionSort fun a b => a ≤ b).filter (fun a => id a = g) = [g] := by
    have hcount : (m.keys.insertionSort fun a b => a ≤ b).count g = 1 := by
      rw [(perm_insertionSort _ _).count_eq]
      exact count_eq_one_of_mem m.keys_nodup hmem
    simp only [id_eq]
    rw [filter_eq, hcount]
    rfl
  rw [hone, filterMap_cons_some (by rw [h]; rfl)]
  exact ⟨_, rfl, rfl⟩

/-- The other names keep all of them. -/
theorem enforce_none {ops : List Operation} {m : GoMap RestrictedOwnershipConflict}
    (hm : ∀ g c, m.lookup g = some c → c.desired.dnsName ≠ "" ∧ c.desired.mutationGroupKey = g)
    (h : m.lookup g = none) (hop : op ∈ enforceRestrictedOwnershipConflicts ops m) (hg : op.group = g) :
    op ∈ ops := by
  unfold enforceRestrictedOwnershipConflicts at hop
  split at hop
  · exact hop
  rcases mem_append.1 hop with hop | hop
  · obtain ⟨k, -, hk⟩ := mem_filterMap.1 hop
    obtain ⟨c, hc, rfl⟩ := Option.map_eq_some_iff.1 hk
    obtain ⟨hname, hgroup⟩ := hm k c hc
    unfold Operation.group at hg
    rw [if_pos hname, hgroup] at hg
    subst hg
    rw [h] at hc
    simp at hc
  · exact mem_of_mem_filter hop

/-- A row that is adopted is a row of a desired name. -/
theorem ExactRow.endpoint (hd : ∀ e ∈ desired, e.WellFormed) (hc : c.WellFormed) (h : ExactRow desired c) :
    ∃ e ∈ desiredOf desired c.mutationGroupKey, c.key = e.key ∧ c.recordType = e.recordType ∧
      c.equalRecord e = true := by
  obtain ⟨e, hlook, heq⟩ := h
  obtain ⟨hmem, hkey⟩ := lookup_indexDesired_mem hd hlook
  rw [hkey] at hlook
  exact ⟨e, mem_desiredOf.2 ⟨(mem_desiredValues hd).2 hlook, group_of_key (hd e hmem) hc hkey.symm⟩, hkey,
    ((key_eq_iff hc (hd e hmem)).1 hkey).2.2.1, heq⟩

section

variable (hd : ∀ e ∈ desired, e.WellFormed) (hc : ∀ c ∈ current, c.WellFormed) (howner : trimSpace ownerID ≠ "")

include hd hc howner

/-- A name whose rows are the desired records, as the planner sees it. -/
theorem exactName_of_same (hsame : SameRecords (addressRows current g) (desiredOf desired g)) :
    ExactName ownerID (desiredOf desired g)
      (rowsOf (current.map (adoptExactRow (indexDesired desired) ownerID)) g) := by
  have hrows : ∀ c ∈ addressRows current g, c.WellFormed ∧ c.mutationGroupKey = g :=
    fun c hcm => ⟨hc c (mem_addressRows.1 hcm).1, (mem_addressRows.1 hcm).2.1⟩
  obtain ⟨hlen, hexact, hkeys⟩ := (sameRecords_iff hd hrows).1 hsame
  -- every desired endpoint has its row
  have hcovered : ∀ e ∈ desiredOf desired g, ∃ c ∈ addressRows current g, c.key = e.key ∧
      c.recordType = e.recordType := by
    intro e he
    have hsub : (addressRows current g).map Endpoint.key ⊆ (desiredOf desired g).map Endpoint.key := by
      intro k hk
      obtain ⟨c, hcm, rfl⟩ := mem_map.1 hk
      obtain ⟨e', he', hke, -⟩ := (hexact c hcm).endpoint hd (hrows c hcm).1
      rw [(hrows c hcm).2] at he'
      exact mem_map.2 ⟨e', he', hke.symm⟩
    have hperm := (subperm_of_subset hkeys hsub).perm_of_length_le (by simp [hlen])
    obtain ⟨c, hcm, hkey⟩ := mem_map.1 (hperm.mem_iff.2 (mem_map_of_mem he))
    exact ⟨c, hcm, hkey, ((key_eq_iff (hrows c hcm).1 (wf_of_mem_desiredOf hd he)).1 hkey).2.2.1⟩
  have hwf : ∀ c ∈ rowsOf current g, c.WellFormed := fun c hcm => hc c (mem_rowsOf.1 hcm).1
  have howned : ∀ c ∈ rowsOf current g,
      ownedBy (adoptExactRow (indexDesired desired) ownerID c) ownerID = addressRow c := by
    intro c hcm
    rw [Bool.eq_iff_iff, adoptExactRow_owned howner (hwf c hcm)]
    exact ⟨fun h => h.1, fun h => ⟨h, hexact c (mem_addressRows.2
      ⟨(mem_rowsOf.1 hcm).1, (mem_rowsOf.1 hcm).2, h⟩)⟩⟩
  rw [rowsOf_adopted]
  refine ⟨desiredOf_keys_nodup hd g, ?_, ?_, ?_⟩
  · intro c' hc' hown
    obtain ⟨c, hcm, rfl⟩ := mem_map.1 hc'
    obtain ⟨e, he, hkey, htype, heq⟩ :=
      ((adoptExactRow_owned howner (hwf c hcm)).1 hown).2.endpoint hd (hwf c hcm)
    rw [(mem_rowsOf.1 hcm).2] at he
    exact ⟨e, he, (adoptExactRow_keys _ c).1.trans hkey, (adoptExactRow_equal _ c e).1.trans htype,
      (adoptExactRow_equal _ c e).2.trans heq⟩
  · intro e he
    obtain ⟨c, hcm, hkey, -⟩ := hcovered e he
    refine ⟨adoptExactRow (indexDesired desired) ownerID c, ?_⟩
    have hfilter : (((rowsOf current g).map (adoptExactRow (indexDesired desired) ownerID)).filter
        fun c => c.key = e.key).filter (fun c => ownedBy c ownerID) =
        ((addressRows current g).filter fun c => c.key = e.key).map
          (adoptExactRow (indexDesired desired) ownerID) := by
      rw [filter_map, filter_map]
      refine congrArg (List.map _) ?_
      unfold addressRows
      rw [filter_filter, filter_filter]
      refine filter_congr fun x hx => ?_
      simp only [Function.comp_apply, howned x hx, (adoptExactRow_keys _ x).1]
      exact Bool.and_comm _ _
    have hone : (addressRows current g).filter (fun c => c.key = e.key) = [c] := by
      have hle : ((addressRows current g).filter fun c => c.key = e.key).length ≤ 1 :=
        length_le_one_of_key (k := e.key) (hkeys.sublist (filter_sublist.map _)) fun x hx => by
          simpa using (mem_filter.1 hx).2
      have hmem : c ∈ (addressRows current g).filter (fun c => c.key = e.key) :=
        mem_filter.2 ⟨hcm, by simpa using hkey⟩
      obtain ⟨x, hx⟩ := length_eq_one_iff.1 (le_antisymm hle (length_pos_of_mem hmem))
      rw [hx, mem_singleton] at hmem
      rw [hx, hmem]
    unfold copies partitionOwned
    rw [hfilter, hone, map_singleton, insertionSort_cons, insertionSort_nil, orderedInsert_nil]
  · intro e he
    rw [unownedSiblings_eq_nil]
    intro c' hc' hlogical
    obtain ⟨c, hcm, rfl⟩ := mem_map.1 hc'
    obtain ⟨r, hr, -, htype⟩ := hcovered e he
    have hce : c.recordType = e.recordType :=
      ((logicalKey_eq_iff (hwf c hcm) (wf_of_mem_desiredOf hd he)).1
        ((adoptExactRow_keys _ c).2.1.symm.trans hlogical)).2.2
    rw [howned c hcm]
    have haddr := (mem_addressRows.1 hr).2.2
    unfold addressRow at haddr ⊢
    rw [hce, ← htype]
    exact haddr

/-- The rows of a name that restricted mode adopts are desired. -/
theorem adopted_unowned {c' : Endpoint}
    (hc' : c' ∈ rowsOf (current.map (adoptExactRow (indexDesired desired) ownerID)) g)
    (h : desiredOf desired g = [] ∨ addressRows current g = []) : ownedBy c' ownerID = false := by
  rw [rowsOf_adopted] at hc'
  obtain ⟨c, hcm, rfl⟩ := mem_map.1 hc'
  obtain ⟨hcur, hgroup⟩ := mem_rowsOf.1 hcm
  rw [← Bool.not_eq_true, adoptExactRow_owned howner (hc c hcur)]
  rintro ⟨haddr, hexact⟩
  rcases h with h | h
  · obtain ⟨e, he, -⟩ := hexact.endpoint hd (hc c hcur)
    rw [hgroup, h] at he
    simp at he
  · have := mem_addressRows.2 ⟨hcur, hgroup, haddr⟩
    rw [h] at this
    simp at this

/-- What the planner does at a name that is no conflict. -/
theorem free_name (hfree : desiredOf desired g = [] ∨ addressRows current g = [] ∨
      SameRecords (addressRows current g) (desiredOf desired g))
    (hop : op ∈ groupPlan ownerID cleanup allowed (desiredOf desired g)
      (rowsOf (current.map (adoptExactRow (indexDesired desired) ownerID)) g)) :
    desiredOf desired g ≠ [] ∧ (op.type = .conflict ∨ op.type = .create ∧ addressRows current g = []) := by
  have hne : desiredOf desired g ≠ [] := by
    intro h
    rw [h] at hop
    exact undesired_plan (fun c hcm => adopted_unowned hd hc howner hcm (Or.inl h)) hop
  refine ⟨hne, ?_⟩
  rcases hfree with h | h | h
  · exact absurd h hne
  · rcases unowned_plan (fun c hcm => adopted_unowned hd hc howner hcm (Or.inr h)) hop with ht | ht
    · exact Or.inr ⟨ht, h⟩
    · exact Or.inl ht
  · exact Or.inl (exact_plan (exactName_of_same hd hc howner h) hop)

end

/-- A name with a desired endpoint. -/
theorem desiredOf_ne_nil (hd : ∀ e ∈ desired, e.WellFormed) :
    desiredOf desired g ≠ [] ↔ g ∈ desired.map Endpoint.mutationGroupKey := by
  constructor
  · intro h
    obtain ⟨e, rest, hcons⟩ := exists_cons_of_ne_nil h
    have he : e ∈ desiredOf desired g := by rw [hcons]; exact mem_cons_self
    obtain ⟨hval, hgroup⟩ := mem_desiredOf.1 he
    exact mem_map.2 ⟨e, mem_of_mem_desiredValues hd hval, hgroup⟩
  · intro h
    obtain ⟨e, he, rfl⟩ := mem_map.1 h
    obtain ⟨e', he', -⟩ := exists_desiredOf hd he
    exact ne_nil_of_mem he'

/-- **Restricted exclusive ownership leaves existing rows alone.** Its operations are creates and
conflicts, all at desired names. A create is at a name without A, AAAA and CNAME rows; a desired
name with such rows that are not the desired records gets one conflict and nothing else. Without
restriction no row of another type is the current row of a mutation. -/
theorem restricted_untouched (rt : Runtime) (desired current : List Endpoint) (ownerID : String)
    (cleanup : CleanupPolicy) (allowed : Endpoint → Bool) (hd : ∀ e ∈ desired, e.WellFormed)
    (hc : ∀ c ∈ current, c.WellFormed) (howner : trimSpace ownerID ≠ "") :
    let operations := fun restricted =>
      let owned := prepareExclusiveOwnership rt current desired ownerID restricted
      enforceRestrictedOwnershipConflicts
        (buildWithCleanupScope rt desired owned.1 ownerID cleanup allowed) owned.2
    (∀ op ∈ operations true, op.type = .create ∨ op.type = .conflict) ∧
    (∀ op ∈ operations true, op.type = .create → addressRows current op.group = []) ∧
    (∀ g ∈ desired.map Endpoint.mutationGroupKey, addressRows current g ≠ [] →
      ¬SameRecords (addressRows current g) (desiredOf desired g) →
      ∃ op, op.type = .conflict ∧ (operations true).filter (fun op => op.group = g) = [op]) ∧
    (∀ op ∈ operations true, op.group ∈ desired.map Endpoint.mutationGroupKey) ∧
    ∀ op ∈ operations false, op.type.mutatesRow = true → addressRow op.current = true := by
  have hconflicts : ∀ g conflict, (restrictedConflicts rt (indexDesired desired) current).lookup g =
    some conflict →
      conflict.desired.dnsName ≠ "" ∧ conflict.desired.mutationGroupKey = g := by
    intro g conflict hlook
    have hmem := restrictedConflicts_of rt hd hc g conflict hlook
    exact ⟨(wf_of_mem_desiredOf hd hmem).name, (mem_desiredOf.1 hmem).2⟩
  have hadopted := adopted_wf ownerID hc (indexDesired desired)
  -- an operation of restricted mode, at its name
  have hcases : ∀ op ∈ enforceRestrictedOwnershipConflicts (buildWithCleanupScope rt desired
      (current.map (adoptExactRow (indexDesired desired) ownerID)) ownerID cleanup allowed)
      (restrictedConflicts rt (indexDesired desired) current),
      desiredOf desired op.group ≠ [] ∧
        (op.type = .conflict ∨ op.type = .create ∧ addressRows current op.group = []) := by
    intro op hop
    rcases lookup_restrictedConflicts (g := op.group) rt hd hc with ⟨hnone, hfree⟩ | ⟨x, hx, hmem, -⟩
    · have hplan := enforce_none hconflicts hnone hop rfl
      exact free_name hd hc howner hfree ((mem_plan hd hadopted).1 hplan)
    · obtain ⟨op', htype, hfilter⟩ := enforce_some (buildWithCleanupScope rt desired
        (current.map (adoptExactRow (indexDesired desired) ownerID)) ownerID cleanup allowed) hconflicts hx
      have : op ∈ [op'] := by
        rw [← hfilter]
        exact mem_filter.2 ⟨hop, by simp⟩
      rw [mem_singleton.1 this] at hmem ⊢
      exact ⟨ne_nil_of_mem hmem, Or.inl htype⟩
  refine ⟨fun op hop => ?_, fun op hop ht => ?_, fun g hg hrows hdiff => ?_, fun op hop => ?_,
    fun op hop hm => ?_⟩
  · exact (hcases op hop).2.symm.imp (fun h => h.1) id
  · rcases (hcases op hop).2 with h | h
    · rw [ht] at h
      simp at h
    · exact h.2
  · rcases lookup_restrictedConflicts (g := g) rt hd hc with ⟨-, hfree⟩ | ⟨x, hx, -⟩
    · rcases hfree with h | h | h
      · exact absurd h ((desiredOf_ne_nil hd).2 hg)
      · exact absurd h hrows
      · exact absurd h hdiff
    · exact enforce_some _ hconflicts hx
  · exact (desiredOf_ne_nil hd).1 (hcases op hop).1
  · -- unrestricted mode adopts rows of the three types only
    have hop : op ∈ buildWithCleanupScope rt desired (current.map (adoptRow ownerID)) ownerID cleanup allowed :=
      hop
    have hwf : ∀ c ∈ current.map (adoptRow ownerID), c.WellFormed := by
      intro c hcm
      obtain ⟨o, ho, rfl⟩ := mem_map.1 hcm
      exact relabel_wf (hc o ho) _
    obtain ⟨hrow, -, hown, -⟩ := plan_row hd hwf hop hm
    obtain ⟨c, hcm, hcur⟩ := mem_map.1 hrow
    rw [← hcur] at hown ⊢
    exact adoptRow_owned howner (hc c hcm) hown

/-- One desired record. -/
def restrictedDesired : List Endpoint :=
  [{ dnsName := "app.example.com", recordType := "A", targets := ["192.0.2.1"], zone := "example.com" }]

/-- Its row, and one more at the name. -/
def restrictedRows : List Endpoint :=
  [{ dnsName := "app.example.com", recordType := "A", targets := ["192.0.2.1"], zone := "example.com"
     providerID := "1" },
   { dnsName := "app.example.com", recordType := "A", targets := ["192.0.2.9"], zone := "example.com"
     providerID := "2" }]

/-- A surplus row makes the name a conflict. -/
theorem restricted_untouched_surplus :
    ∃ op, op.type = .conflict ∧
      (enforceRestrictedOwnershipConflicts
        (buildWithCleanupScope .plain restrictedDesired
          (prepareExclusiveOwnership .plain restrictedRows restrictedDesired "blue" true).1 "blue" .delete
          fun _ => true)
        (prepareExclusiveOwnership .plain restrictedRows restrictedDesired "blue" true).2).filter
        (fun op => op.group = "example.com|app.example.com") = [op] := by
  have hdiff : ¬SameRecords (addressRows restrictedRows "example.com|app.example.com")
      (desiredOf restrictedDesired "example.com|app.example.com") := by
    rintro ⟨D', hperm, hmatch⟩
    have hlen := hmatch.length_eq.trans hperm.length_eq
    exact absurd hlen (by decide +kernel)
  exact (restricted_untouched .plain restrictedDesired restrictedRows "blue" .delete (fun _ => true)
    (by decide +kernel) (by decide +kernel) (by decide +kernel)).2.2.1 "example.com|app.example.com"
    (by decide +kernel) (by decide +kernel) hdiff

end FortigateDns
