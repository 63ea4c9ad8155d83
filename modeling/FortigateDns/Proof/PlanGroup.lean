import FortigateDns.Proof.PlanPasses

/-!
# The planner works name by name

`buildWithCleanupScope_group`: for well-formed input, the operations the planner returns for
a DNS owner name are those of `groupPlan` on the desired endpoints and rows of that name, in
some order. Nothing else of the input matters, and no iteration order does.
-/

namespace FortigateDns

open Go GoMap List

variable {rt : Runtime} {desired current : List Endpoint} {ownerID : String} {cleanup : CleanupPolicy}
variable {allowed : Endpoint → Bool} {conflicts replacements : GoMap Operation}
variable {e c : Endpoint} {op : Operation}

section

variable {values : List Endpoint}

theorem filter_values_perm (hv : values.Perm (desiredValues desired)) (g : String) :
    (values.filter fun e => e.mutationGroupKey = g).Perm (desiredOf desired g) :=
  (hv.filter _).trans (desiredOf_perm g).symm

/-- The missing endpoints of a name. -/
theorem creates_group (hv : values.Perm (desiredValues desired)) (g : String) :
    ((values.filter (isMissing current ownerID conflicts replacements)).filter
      fun e => e.mutationGroupKey = g).Perm
      (if freeName conflicts replacements g then
        missing ownerID (desiredOf desired g) (rowsOf current g) else []) := by
  rw [filter_filter]
  have h : (values.filter fun e => decide
    (e.mutationGroupKey = g) && isMissing current ownerID conflicts replacements e) =
      (values.filter fun e => decide (e.mutationGroupKey = g)).filter fun e =>
        freeName conflicts replacements g &&
          (decide (unownedSiblings ownerID (rowsOf current g) e = []) &&
            decide (copies ownerID (rowsOf current g) e = [])) := by
    rw [filter_filter]
    apply filter_congr
    intro e _
    by_cases hg : e.mutationGroupKey = g
    · subst hg; simp [isMissing, Bool.decide_and]
    · simp [hg]
  rw [h]
  refine ((filter_values_perm hv g).filter _).trans (List.Perm.of_eq ?_)
  cases freeName conflicts replacements g <;> simp [missing]

theorem copies_mem {C : List Endpoint} :
    c ∈ copies ownerID C e ↔ c ∈ C ∧ c.key = e.key ∧ ownedBy c ownerID = true := by
  unfold copies partitionOwned
  simp only [mem_insertionSort, mem_filter, decide_eq_true_eq, and_assoc]

theorem duplicatesOf_mem {C : List Endpoint} (h : c ∈ duplicatesOf ownerID allowed C e) :
    unownedSiblings ownerID C e = [] ∧ c ∈ copies ownerID C e ∧ allowed c = true := by
  unfold duplicatesOf at h
  split at h
  · rename_i hu
    rw [mem_filter] at h
    exact ⟨hu, mem_of_mem_tail h.1, h.2⟩
  · simp at h

/-- A pass that stays in the name of each element, seen at one name. -/
theorem filter_flatMap_group {f : Endpoint → List Endpoint} (g : String) :
    ∀ (l : List Endpoint), (∀ e ∈ l, ∀ c ∈ f e, c.mutationGroupKey = e.mutationGroupKey) →
      (l.flatMap f).filter (fun c => c.mutationGroupKey = g) =
        (l.filter fun e => e.mutationGroupKey = g).flatMap f := by
  intro l
  induction l with
  | nil => intro _; rfl
  | cons e l ih =>
    intro h
    rw [flatMap_cons, filter_append, ih (fun x hx => h x (mem_cons_of_mem _ hx))]
    have he := h e mem_cons_self
    by_cases hg : e.mutationGroupKey = g
    · rw [filter_cons_of_pos (by simpa using hg), flatMap_cons]
      congr 1
      rw [filter_eq_self]
      intro c hc; simpa [he c hc] using hg
    · rw [filter_cons_of_neg (by simpa using hg)]
      have : (f e).filter (fun c => decide (c.mutationGroupKey = g)) = [] := by
        rw [filter_eq_nil_iff]
        intro c hc; simpa [he c hc] using hg
      rw [this, nil_append]

theorem rowsOf_wf (hc : ∀ c ∈ current, c.WellFormed) {g : String} (h : c ∈ rowsOf current g) :
    c.WellFormed ∧ c ∈ current ∧ c.mutationGroupKey = g := by
  unfold rowsOf at h
  rw [mem_filter, decide_eq_true_eq] at h
  exact ⟨hc c h.1, h⟩

theorem surplus_row (h : c ∈ surplus current ownerID allowed conflicts replacements e) :
    c ∈ rowsOf current e.mutationGroupKey := by
  unfold surplus at h
  split at h
  · exact (copies_mem.1 (duplicatesOf_mem h).2.1).1
  · simp at h

/-- The surplus rows of a name. -/
theorem surplus_group (hc : ∀ c ∈ current, c.WellFormed) (hv : values.Perm (desiredValues desired)) (g : String) :
    ((values.flatMap (surplus current ownerID allowed conflicts replacements)).filter
      fun c => c.mutationGroupKey = g).Perm
      (if freeName conflicts replacements g then
        (desiredOf desired g).flatMap (duplicatesOf ownerID allowed (rowsOf current g)) else []) := by
  rw [filter_flatMap_group g values (fun e _ c h => (rowsOf_wf hc (surplus_row h)).2.2)]
  refine ((filter_values_perm hv g).flatMap_right _).trans (List.Perm.of_eq ?_)
  have h : ∀ e ∈ desiredOf desired g, surplus current ownerID allowed conflicts replacements e =
      if freeName conflicts replacements g then duplicatesOf ownerID allowed (rowsOf current g) e else [] := by
    intro e he
    unfold surplus
    rw [(mem_desiredOf.1 he).2]
  rw [flatMap_congr h]
  cases freeName conflicts replacements g <;> simp

/-- The logical records of a name that an unowned row blocks. -/
theorem blocked_contains (hd : ∀ e ∈ desired, e.WellFormed) (hv : values.Perm (desiredValues desired))
    {c : Endpoint} (hc : c.WellFormed) (hf : freeName conflicts replacements c.mutationGroupKey = true) :
    ((values.filter (isBlocked current ownerID conflicts replacements)).map Endpoint.logicalKey).contains
        c.logicalKey =
      (desiredOf desired c.mutationGroupKey).any fun e => e.logicalKey == c.logicalKey &&
        !decide (unownedSiblings ownerID (rowsOf current c.mutationGroupKey) e = []) := by
  rw [Bool.eq_iff_iff]
  simp only [contains_iff_mem, mem_map, mem_filter, any_eq_true, isBlocked,
    Bool.and_eq_true, decide_eq_true_eq, beq_iff_eq, Bool.not_eq_true', decide_eq_false_iff_not]
  constructor
  · rintro ⟨e, ⟨hev, -, hu⟩, hlog⟩
    have hev' := hv.mem_iff.1 hev
    have hg := group_of_logicalKey (wf_of_mem_desiredValues hd hev') hc hlog
    exact ⟨e, mem_desiredOf.2 ⟨hev', hg⟩, hlog, by rw [← hg]; exact hu⟩
  · rintro ⟨e, he, hlog, hu⟩
    obtain ⟨hev, hg⟩ := mem_desiredOf.1 he
    exact ⟨e, ⟨hv.mem_iff.2 hev, by rw [hg]; exact hf, by rw [hg]; exact hu⟩, hlog⟩

/-- The orphaned rows of a name. -/
theorem orphaned_group (hd : ∀ e ∈ desired, e.WellFormed) (hc : ∀ c ∈ current, c.WellFormed)
    (hv : values.Perm (desiredValues desired)) (g : String) :
    ((current.filter fun c => !((indexDesired desired).lookup c.key).isSome &&
      (freeName conflicts replacements c.mutationGroupKey &&
        !((values.filter (isBlocked current ownerID conflicts replacements)).map Endpoint.logicalKey).contains
          c.logicalKey && ownedBy c ownerID && allowed c)).filter fun c => c.mutationGroupKey = g) =
      if freeName conflicts replacements g then
        (rowsOf current g).filter (orphaned ownerID allowed (desiredOf desired g)
          (rowsOf current g)) else [] := by
  have hkey : ∀ c ∈ current, c.mutationGroupKey = g →
      ((desiredOf desired g).map Endpoint.key).contains c.key = ((indexDesired desired).lookup c.key).isSome := by
    intro c hcm hg
    rw [Bool.eq_iff_iff, contains_iff_mem, mem_map, lookup_indexDesired_isSome_iff hd]
    constructor
    · rintro ⟨e, he, hk⟩; exact ⟨e, (mem_desiredOf.1 he).1, hk⟩
    · rintro ⟨e, he, hk⟩
      exact ⟨e, mem_desiredOf.2 ⟨he, (group_of_key (wf_of_mem_desiredValues hd he) (hc c hcm) hk).trans hg⟩, hk⟩
  cases hf : freeName conflicts replacements g with
  | false =>
    simp only [Bool.false_eq_true, if_false]
    rw [filter_filter, filter_eq_nil_iff]
    intro c _ h
    simp only [Bool.and_eq_true, decide_eq_true_eq] at h
    rw [h.1, hf] at h
    simp at h
  | true =>
    simp only [if_true]
    have hrow : ∀ q : Endpoint → Bool,
        (rowsOf current g).filter q = current.filter fun c => q c && decide (c.mutationGroupKey = g) :=
      fun q => filter_filter
    rw [filter_filter, hrow]
    apply filter_congr
    intro c hcm
    by_cases hg : c.mutationGroupKey = g
    · have hb := @blocked_contains _ current ownerID _ _ _ hd hv _ (hc c hcm)
        (by rw [hg]; exact hf)
      rw [hb]
      subst hg
      unfold orphaned
      rw [hkey c hcm rfl, hf]
      simp [Bool.and_assoc]
    · simp [hg]

end

theorem recordReplacement_eq_some {D C : List Endpoint} :
    recordReplacement ownerID cleanup allowed D C e = some op ↔
      cleanup = .delete ∧ ((missing ownerID D C).filter fun f => f.logicalKey = e.logicalKey).length = 1 ∧
        ∃ s, (stale ownerID allowed D C).filter (fun s => s.logicalKey = e.logicalKey) = [s] ∧
          hasProviderID s = true ∧
          op = { type := .replace, desired := e, current := s, reason := "record target changed" } := by
  unfold recordReplacement partner
  constructor
  · intro h
    obtain ⟨s, hs, rfl⟩ := Option.map_eq_some_iff.1 h
    split at hs
    · rename_i hcond
      split at hs
      · rename_i s' hs'
        split at hs
        · rename_i hp
          cases hs
          exact ⟨hcond.1, hcond.2, s, hs', hp, rfl⟩
        · simp at hs
      · simp at hs
    · simp at hs
  · rintro ⟨h1, h2, s, hs, hp, rfl⟩
    rw [if_pos ⟨h1, h2⟩, hs]
    simp [hp]

theorem missing_mem {D C : List Endpoint} :
    e ∈ missing ownerID D C ↔ e ∈ D ∧ unownedSiblings ownerID C e = [] ∧ copies ownerID C e = [] := by
  unfold missing
  simp

section

variable {D C creates staleRows : List Endpoint} {blocked : List String} {g : String}

/-- The elements of a logical record lie at its name. -/
theorem filter_logical_of_group {l : List Endpoint} (hl : ∀ e ∈ l, e.WellFormed) {x : Endpoint}
    (hx : x.WellFormed) (hg : x.mutationGroupKey = g) :
    l.filter (fun e => e.logicalKey = x.logicalKey) =
      (l.filter fun e => e.mutationGroupKey = g).filter fun e => e.logicalKey = x.logicalKey := by
  rw [filter_filter]
  apply filter_congr
  intro e he
  by_cases h : e.logicalKey = x.logicalKey
  · simp [h, group_of_logicalKey (hl e he) hx h, hg]
  · simp [h]

/-- What pairing finds for a missing endpoint is its replacement. -/
theorem pairingUnder_missing (hcr : ∀ e ∈ creates, e.WellFormed) (hst : ∀ s ∈ staleRows, s.WellFormed)
    (hM : (creates.filter fun e => e.mutationGroupKey = g).Perm (missing ownerID D C))
    (hS : (staleRows.filter fun c => c.mutationGroupKey = g).Perm (stale ownerID allowed D C))
    (hb : ∀ e ∈ missing ownerID D C, e.logicalKey ∉ blocked) (he : e ∈ missing ownerID D C) :
    pairingUnder cleanup blocked creates staleRows e.logicalKey = recordReplacement ownerID cleanup
      allowed D C e := by
  have hem := hM.mem_iff.2 he
  rw [mem_filter, decide_eq_true_eq] at hem
  have hwf := hcr e hem.1
  have hMe := hM.filter fun f => f.logicalKey = e.logicalKey
  have hSe := hS.filter fun f => f.logicalKey = e.logicalKey
  rw [← filter_logical_of_group hcr hwf hem.2] at hMe
  rw [← filter_logical_of_group hst hwf hem.2] at hSe
  apply Option.ext
  intro op
  rw [recordReplacement_eq_some]
  unfold pairingUnder
  by_cases hdel : cleanup = .delete
  swap
  · simp [hdel]
  rw [if_pos hdel, pairing_eq_some]
  constructor
  · rintro ⟨-, c, s, hc, hs, hp, rfl⟩
    rw [hc] at hMe
    rw [hs] at hSe
    have hce : e ∈ [c] := hMe.mem_iff.2 (by simp [he])
    rw [mem_singleton] at hce
    refine ⟨hdel, by rw [← hMe.length_eq]; rfl, s, (singleton_perm.1 hSe).symm, hp, by rw [hce]⟩
  · rintro ⟨-, hlen, s, hs, hp, rfl⟩
    refine ⟨hb e he, e, s, ?_, ?_, hp, rfl⟩
    · obtain ⟨c, hc⟩ := length_eq_one_iff.1 (hMe.length_eq.trans hlen)
      have hce : e ∈ [c] := by rw [← hc]; simp [hem.1]
      rw [mem_singleton] at hce
      rw [hc, hce]
    · rw [hs] at hSe
      exact perm_singleton.1 hSe

theorem paired_iff {logical : String} :
    paired ownerID cleanup allowed D C logical = true ↔
      ∃ e ∈ missing ownerID D C, e.logicalKey = logical ∧
        (recordReplacement ownerID cleanup allowed D C e).isSome = true := by
  unfold paired recordReplacement
  simp

/-- At its name, a logical record is paired iff pairing finds a replacement for it. -/
theorem pairingUnder_isSome (hcr : ∀ e ∈ creates, e.WellFormed) (hst : ∀ s ∈ staleRows, s.WellFormed)
    (hM : (creates.filter fun e => e.mutationGroupKey = g).Perm (missing ownerID D C))
    (hS : (staleRows.filter fun c => c.mutationGroupKey = g).Perm (stale ownerID allowed D C))
    (hb : ∀ e ∈ missing ownerID D C, e.logicalKey ∉ blocked) {x : Endpoint} (hx : x.WellFormed)
    (hg : x.mutationGroupKey = g) :
    (pairingUnder cleanup blocked creates staleRows x.logicalKey).isSome =
      paired ownerID cleanup allowed D C x.logicalKey := by
  rw [Bool.eq_iff_iff, paired_iff]
  constructor
  · intro h
    obtain ⟨op, hop⟩ := Option.isSome_iff_exists.1 h
    have hop' := hop
    unfold pairingUnder at hop'
    split at hop'
    · obtain ⟨-, c, s, hc, -⟩ := pairing_eq_some.1 hop'
      have hcm : c ∈ creates.filter (fun e => e.logicalKey = x.logicalKey) := by
        rw [hc]; exact mem_singleton_self c
      rw [mem_filter, decide_eq_true_eq] at hcm
      have hcM : c ∈ missing ownerID D C := hM.mem_iff.1 (by
        rw [mem_filter, decide_eq_true_eq]
        exact ⟨hcm.1, (group_of_logicalKey (hcr c hcm.1) hx hcm.2).trans hg⟩)
      refine ⟨c, hcM, hcm.2, ?_⟩
      rw [← pairingUnder_missing hcr hst hM hS hb hcM, hcm.2, hop]; rfl
    · simp at hop'
  · rintro ⟨e, he, hl, h⟩
    rw [← pairingUnder_missing hcr hst hM hS hb he, hl] at h
    exact h

end

theorem cnameTransition_desired {D C L : List Endpoint}
    (h : cnameTransition D C L ownerID cleanup allowed = some op) : D ≠ [] ∧ op.desired = D.headD {} := by
  refine ⟨fun hD => by rw [hD, cnameTransition_nil] at h; simp at h, ?_⟩
  unfold cnameTransition at h
  simp only at h
  split at h
  · simp at h
  · split at h
    · cases h; rfl
    · split at h <;> cases h <;> rfl

/-- The operation that settles a name is about a desired endpoint of that name. -/
theorem nameDecision_desired (hd : ∀ e ∈ desired, e.WellFormed) {g : String} {C : List Endpoint}
    (h : nameDecision ownerID cleanup allowed (desiredOf desired g) C = some op) :
    op.desired ∈ desiredOf desired g := by
  unfold nameDecision at h
  rw [Option.or_eq_some_iff] at h
  rcases h with h | ⟨-, h⟩
  · exact (nameConflict_type hd h).2
  · obtain ⟨hne, hdes⟩ := cnameTransition_desired h
    rw [hdes]
    cases hD : desiredOf desired g with
    | nil => exact absurd hD hne
    | cons x l => simp

theorem nameDecision_group (hd : ∀ e ∈ desired, e.WellFormed) {g : String} {C : List Endpoint}
    (h : nameDecision ownerID cleanup allowed (desiredOf desired g) C = some op) : op.group = g := by
  have hm := nameDecision_desired hd h
  rw [Operation.group_of_desired (wf_of_mem_desiredOf hd hm) rfl, (mem_desiredOf.1 hm).2]

theorem cleanupOperation_group (hc : c.WellFormed) (h : cleanupOperation cleanup c = some op) :
    op.group = c.mutationGroupKey := by
  unfold cleanupOperation at h
  cases cleanup with
  | delete => cases h; rfl
  | deactivate =>
    simp only at h
    split at h
    · simp at h
    · cases h
      unfold Operation.group
      simp only
      rw [if_pos hc.name]
      rfl
  | keep => simp at h

/-- A pass that emits at the name of each element, seen at one name. -/
theorem filter_filterMap_group {α β : Type} {f : α → Option β} {u : α → String} {v : β → String} (g : String)
    {l : List α} (h : ∀ a ∈ l, ∀ b, f a = some b → v b = u a) :
    (l.filterMap f).filter (fun b => v b = g) = (l.filter fun a => u a = g).filterMap f := by
  induction l with
  | nil => rfl
  | cons a l ih =>
    have ih := ih (fun x hx => h x (mem_cons_of_mem _ hx))
    cases hf : f a with
    | none =>
      rw [filterMap_cons_none hf, ih, filter_cons]
      split
      · rw [filterMap_cons_none hf]
      · rfl
    | some b =>
      rw [filterMap_cons_some hf, filter_cons, filter_cons, ih, h a mem_cons_self b hf]
      split
      · rw [filterMap_cons_some hf]
      · rfl

theorem finishPlan_group {st : PairState} (hcr : ∀ e ∈ st.createCandidates, e.WellFormed)
    (hst : ∀ s ∈ st.staleCandidates, s.WellFormed) (g : String) :
    (finishPlan cleanup st).filter (fun op => op.group = g) =
      st.operations.filter (fun op => op.group = g) ++
        (st.createCandidates.filter fun e => e.mutationGroupKey = g).map
          (fun e => { type := .create, desired := e, reason := "record is missing" }) ++
        if st.createCandidates.filter (fun e => e.mutationGroupKey = g) = [] then
          (st.staleCandidates.filter fun c => c.mutationGroupKey = g).filterMap (cleanupOperation cleanup)
        else [] := by
  unfold finishPlan
  simp only [filter_append]
  refine congrArg₂ _ (congrArg₂ _ rfl ?_) ?_
  · rw [filter_map]
    refine congrArg (List.map _) (filter_congr fun e he => ?_)
    rw [Function.comp_apply, Operation.group_of_desired (hcr e he) rfl]
  · rw [filter_filterMap_group (u := Endpoint.mutationGroupKey) g
        (fun c hc op h => cleanupOperation_group (hst c (mem_of_mem_filter hc)) h),
      filter_filter]
    split
    · rename_i hnil
      refine congrArg (List.filterMap _) (filter_congr fun c _ => ?_)
      by_cases hg : c.mutationGroupKey = g
      · subst hg
        have : c.mutationGroupKey ∉ st.createCandidates.map Endpoint.mutationGroupKey := by
          intro hmem
          obtain ⟨e, he, heg⟩ := mem_map.1 hmem
          exact filter_eq_nil_iff.1 hnil e he (by simpa using heg)
        simpa using this
      · simp [hg]
    · rename_i hne
      obtain ⟨e, he⟩ := exists_mem_of_ne_nil _ hne
      rw [mem_filter, decide_eq_true_eq] at he
      have : (st.staleCandidates.filter fun c => decide (c.mutationGroupKey = g) &&
          !(st.createCandidates.map Endpoint.mutationGroupKey).contains c.mutationGroupKey) = [] := by
        rw [filter_eq_nil_iff]
        intro c _ h
        simp only [Bool.and_eq_true, decide_eq_true_eq, Bool.not_eq_true'] at h
        have hm := contains_iff_mem.2 (mem_map.2 ⟨e, he.1, he.2.trans h.1.symm⟩)
        rw [h.2] at hm; simp at hm
      rw [this]; rfl

/-- The in-place replacements of a name. -/
theorem replacements_group (hgroup : ∀ g op, replacements.lookup g = some op → op.group = g) (g : String) :
    (((rt.range .replacements replacements).map Prod.snd).filter fun op => op.group = g).Perm
      (replacements.lookup g).toList := by
  have hnd := range_keys_nodup (rt.order_perm .replacements) replacements
  have hinj : ∀ p ∈ rt.range .replacements replacements, p.2.group = p.1 :=
    fun p hp => hgroup _ _ ((mem_range (rt.order_perm _) _).1 hp)
  have hnd' : ((rt.range .replacements replacements).map Prod.snd).Nodup := by
    apply List.Nodup.of_map Operation.group
    rw [map_map]
    convert hnd using 1
    exact map_congr_left hinj
  rw [perm_ext_iff_of_nodup (hnd'.filter _) (by cases replacements.lookup g <;> simp)]
  intro op
  simp only [mem_filter, mem_map, Prod.exists, exists_eq_right, decide_eq_true_eq, Option.mem_toList]
  constructor
  · rintro ⟨⟨k, hk⟩, hg⟩
    have hk' := (mem_range (rt.order_perm _) _).1 hk
    rw [← hg, hgroup _ _ hk']; exact hk'
  · intro h
    exact ⟨⟨g, (mem_range (rt.order_perm _) _).2 h⟩, hgroup _ _ h⟩

theorem missing_nodup (hd : ∀ e ∈ desired, e.WellFormed) (g : String) (C : List Endpoint) :
    (missing ownerID (desiredOf desired g) C).Nodup :=
  (List.Nodup.of_map Endpoint.key (desiredOf_keys_nodup hd g)).filter _

theorem pairingUnder_desired {blocked : List String} {creates stale : List Endpoint} {logical : String}
    (h : pairingUnder cleanup blocked creates stale logical = some op) :
    op.desired ∈ creates ∧ op.desired.logicalKey = logical := by
  unfold pairingUnder at h
  split at h
  · obtain ⟨-, c, s, hc, -, -, rfl⟩ := pairing_eq_some.1 h
    have hcm : c ∈ creates.filter (fun e => e.logicalKey = logical) := by
      rw [hc]; exact mem_singleton_self c
    rw [mem_filter, decide_eq_true_eq] at hcm
    exact hcm
  · simp at h

/-- The replacements that pairing finds at a name. -/
theorem pairing_group (hd : ∀ e ∈ desired, e.WellFormed) {creates stale0 : List Endpoint}
    {blocked logicals : List String} {C : List Endpoint} {g : String} (hcr : ∀ e ∈ creates, e.WellFormed)
    (hst : ∀ s ∈ stale0, s.WellFormed)
    (hM : (creates.filter fun e => e.mutationGroupKey = g).Perm (missing ownerID (desiredOf desired g) C))
    (hS : (stale0.filter fun c => c.mutationGroupKey = g).Perm (stale ownerID allowed (desiredOf desired g) C))
    (hb : ∀ e ∈ missing ownerID (desiredOf desired g) C, e.logicalKey ∉ blocked) (hnd : logicals.Nodup)
    (hlog : ∀ k, k ∈ logicals ↔ k ∈ creates.map Endpoint.logicalKey) :
    ((logicals.filterMap (pairingUnder cleanup blocked creates stale0)).filter fun op => op.group = g).Perm
      ((missing ownerID (desiredOf desired g) C).filterMap
        (recordReplacement ownerID cleanup allowed (desiredOf desired g) C)) := by
  rw [perm_ext_iff_of_nodup]
  · intro op
    simp only [mem_filter, mem_filterMap, decide_eq_true_eq]
    constructor
    · rintro ⟨⟨k, -, hk⟩, hg⟩
      obtain ⟨hmem, hkey⟩ := pairingUnder_desired hk
      have hwf := hcr _ hmem
      have hdM : op.desired ∈ missing ownerID (desiredOf desired g) C := hM.mem_iff.1 (by
        rw [mem_filter, decide_eq_true_eq, ← Operation.group_of_desired hwf rfl]
        exact ⟨hmem, hg⟩)
      refine ⟨op.desired, hdM, ?_⟩
      rw [← pairingUnder_missing hcr hst hM hS hb hdM, hkey, hk]
    · rintro ⟨e, he, hop⟩
      have hem := hM.mem_iff.2 he
      rw [mem_filter, decide_eq_true_eq] at hem
      obtain ⟨-, -, s, -, -, rfl⟩ := recordReplacement_eq_some.1 hop
      rw [← pairingUnder_missing hcr hst hM hS hb he] at hop
      exact ⟨⟨e.logicalKey, (hlog _).2 (mem_map_of_mem hem.1), hop⟩,
        (Operation.group_of_desired (hcr e hem.1) rfl).trans hem.2⟩
  · refine (hnd.filterMap ?_).filter _
    intro k k' op hk hk'
    rw [← (pairingUnder_desired hk).2, ← (pairingUnder_desired hk').2]
  · refine (missing_nodup hd g C).filterMap ?_
    intro e f op he hf
    obtain ⟨-, -, s, -, -, rfl⟩ := recordReplacement_eq_some.1 he
    obtain ⟨-, -, s', -, -, h⟩ := recordReplacement_eq_some.1 hf
    exact congrArg Operation.desired h

/-- The last loops of the planner at one name: `free` says that the name is decided record by
record. -/
theorem finish_group (hd : ∀ e ∈ desired, e.WellFormed) {creates stale0 C : List Endpoint} {blocked : List String}
    {ops : List Operation} {g : String} (free : Bool) (hcr : ∀ e ∈ creates, e.WellFormed)
    (hst : ∀ s ∈ stale0, s.WellFormed) (hM : (creates.filter fun e => e.mutationGroupKey = g).Perm
      (if free then missing ownerID (desiredOf desired g) C else []))
    (hS : (stale0.filter fun c => c.mutationGroupKey = g).Perm
      (if free then stale ownerID allowed (desiredOf desired g) C else []))
    (hb : free = true → ∀ e ∈ missing ownerID (desiredOf desired g) C, e.logicalKey ∉ blocked) :
    ((finishPlan cleanup (pairReplacements rt cleanup blocked
      { operations := ops, createCandidates := creates, staleCandidates := stale0 })).filter
        fun op => op.group = g).Perm
      (ops.filter (fun op => op.group = g) ++
        if free then
          (missing ownerID (desiredOf desired g) C).filterMap
              (recordReplacement ownerID cleanup allowed (desiredOf desired g) C) ++
            (created ownerID cleanup allowed (desiredOf desired g) C).map
              (fun e => { type := .create, desired := e, reason := "record is missing" }) ++
            cleanupOperations ownerID cleanup allowed (desiredOf desired g) C
        else []) := by
  obtain ⟨logicals, hnd, hlog, hpair⟩ := @pairReplacements_eq rt cleanup blocked _ _ hcr hst ops
  rw [hpair, finishPlan_group (fun e he => hcr e (mem_of_mem_filter he))
    (fun s hs => hst s (mem_of_mem_filter hs))]
  have hswap : ∀ (l : List Endpoint) (q : Endpoint → Bool),
      (l.filter q).filter (fun e => e.mutationGroupKey = g) =
        (l.filter fun e => e.mutationGroupKey = g).filter q :=
    fun l q => by rw [filter_filter, filter_filter]; simp only [Bool.and_comm]
  simp only [filter_append, append_assoc]
  refine List.Perm.append_left _ ?_
  rw [hswap, hswap]
  cases free with
  | false =>
    simp only [Bool.false_eq_true, if_false, perm_nil] at hM hS ⊢
    rw [hM, hS]
    simp only [filter_nil, map_nil, filterMap_nil, if_true, append_nil]
    rw [filter_eq_nil_iff]
    intro op hop hg
    obtain ⟨k, -, hk⟩ := mem_filterMap.1 hop
    have hmem := (pairingUnder_desired hk).1
    rw [decide_eq_true_eq, Operation.group_of_desired (hcr _ hmem) rfl] at hg
    exact filter_eq_nil_iff.1 hM _ hmem (by simpa using hg)
  | true =>
    simp only [if_true] at hM hS ⊢
    have hb := hb rfl
    -- a record is left over by pairing iff it is not paired
    have hpaired : ∀ x : Endpoint, x.WellFormed → x.mutationGroupKey = g →
        (pairingUnder cleanup blocked creates stale0 x.logicalKey).isNone =
          !paired ownerID cleanup allowed (desiredOf desired g) C x.logicalKey := by
      intro x hx hg
      rw [← pairingUnder_isSome hcr hst hM hS hb hx hg, Option.not_isSome]
    have hleft : ∀ l : List Endpoint, (∀ e ∈ l, e.WellFormed) →
        (l.filter fun e => e.mutationGroupKey = g).filter
          (fun e => (pairingUnder cleanup blocked creates stale0 e.logicalKey).isNone) =
        (l.filter fun e => e.mutationGroupKey = g).filter
          (fun e => !paired ownerID cleanup allowed (desiredOf desired g) C e.logicalKey) := by
      intro l hl
      apply filter_congr
      intro e he
      rw [mem_filter, decide_eq_true_eq] at he
      exact hpaired e (hl e he.1) he.2
    rw [hleft creates hcr, hleft stale0 hst]
    have hcreated := hM.filter fun e => !paired ownerID cleanup allowed (desiredOf desired g) C e.logicalKey
    have hleftover := hS.filter fun e => !paired ownerID cleanup allowed (desiredOf desired g) C e.logicalKey
    refine (pairing_group hd hcr hst hM hS hb hnd hlog).append ((hcreated.map _).append ?_)
    unfold cleanupOperations created leftover
    by_cases hnil : ((missing ownerID (desiredOf desired g) C).filter fun e =>
        !paired ownerID cleanup allowed (desiredOf desired g) C e.logicalKey) = []
    · rw [if_pos hnil, if_pos (by rw [hnil] at hcreated; exact hcreated.eq_nil)]
      exact hleftover.filterMap _
    · rw [if_neg hnil, if_neg (fun h => hnil (by rw [h] at hcreated; exact hcreated.symm.eq_nil))]

/-- The name-level conflicts and replacements of a run. -/
abbrev decisions (rt : Runtime) (desired current : List Endpoint) (ownerID : String) (cleanup : CleanupPolicy)
    (allowed : Endpoint → Bool) : GoMap Operation × GoMap Operation :=
  cnameTransitions rt (groupDesired rt (indexDesired desired))
    (groupBy Endpoint.mutationGroupKey current) (groupBy Endpoint.logicalKey current) ownerID cleanup allowed
    (unownedConflicts rt (indexDesired desired) (groupBy Endpoint.mutationGroupKey current) ownerID
      (desiredSetConflicts rt (groupDesired rt (indexDesired desired))))

theorem freeName_decisions (hd : ∀ e ∈ desired, e.WellFormed) (hc : ∀ c ∈ current, c.WellFormed) (g : String) :
    freeName (decisions rt desired current ownerID cleanup allowed).1
        (decisions rt desired current ownerID cleanup allowed).2 g =
      (nameDecision ownerID cleanup allowed (desiredOf desired g) (rowsOf current g)).isNone := by
  obtain ⟨h1, h2⟩ := @lookup_cnameTransitions rt _ _ ownerID cleanup allowed hd hc g
  unfold freeName
  rw [h1, h2]
  cases nameDecision ownerID cleanup allowed (desiredOf desired g) (rowsOf current g) with
  | none => rfl
  | some op => by_cases h : op.type = .replace <;> simp [Option.filter, h]

/-- The values the loop over the desired endpoints visits. -/
abbrev visited (rt : Runtime) (desired : List Endpoint) : List Endpoint :=
  (rt.range .desired (indexDesired desired)).map Prod.snd

theorem planDesiredAll_eq (hd : ∀ e ∈ desired, e.WellFormed) :
    planDesiredAll rt (indexDesired desired) (groupBy Endpoint.key current) (groupBy Endpoint.logicalKey current)
      ownerID allowed conflicts replacements =
      (visited rt desired).foldl (desiredStep current ownerID allowed conflicts replacements) {} := by
  unfold planDesiredAll visited
  rw [foldl_map]
  apply foldl_ext
  intro st p hp
  have hk := (mem_range (rt.order_perm _) _).1 hp
  rw [(lookup_indexDesired_mem hd hk).2]

theorem map_normalize_eq (hc : ∀ c ∈ current, c.WellFormed) : current.map Endpoint.normalize = current := by
  conv_rhs => rw [← map_id current]
  exact map_congr_left fun c h => (hc c h).fixed

section Unsorted

variable (hd : ∀ e ∈ desired, e.WellFormed) (hc : ∀ c ∈ current, c.WellFormed)

include hd in
/-- What is missing of a free name is not blocked. -/
theorem missing_unblocked {values : List Endpoint} (hv : values.Perm (desiredValues desired)) {g : String}
    (hf : freeName conflicts replacements g = true)
    (he : e ∈ missing ownerID (desiredOf desired g) (rowsOf current g)) :
    e.logicalKey ∉ (values.filter (isBlocked current ownerID conflicts replacements)).map
      Endpoint.logicalKey := by
  intro hmem
  obtain ⟨heD, hu, -⟩ := missing_mem.1 he
  have hg := (mem_desiredOf.1 heD).2
  have hcon := @blocked_contains _ current ownerID _ _ _ hd hv _ (wf_of_mem_desiredOf hd heD)
    (by rw [hg]; exact hf)
  rw [contains_iff_mem.2 hmem] at hcon
  obtain ⟨x, -, hx⟩ := any_eq_true.1 hcon.symm
  simp only [Bool.and_eq_true, beq_iff_eq, Bool.not_eq_true', decide_eq_false_iff_not, hg] at hx
  apply hx.2
  unfold unownedSiblings at hu ⊢
  rw [hx.1]
  exact hu

include hd hc

/-- The stale rows that the two passes have found, for one name. -/
theorem stale_group {values rows : List Endpoint} (hv : values.Perm (desiredValues desired))
    (hrows : rows.Perm (values.flatMap (surplus current ownerID allowed conflicts replacements) ++
      current.filter fun c => !((indexDesired desired).lookup c.key).isSome &&
        (freeName conflicts replacements c.mutationGroupKey &&
          !((values.filter (isBlocked current ownerID conflicts replacements)).map Endpoint.logicalKey).contains
            c.logicalKey && ownedBy c ownerID && allowed c))) (g : String) :
    (∀ s ∈ rows, s.WellFormed) ∧ (rows.filter fun c => c.mutationGroupKey = g).Perm
      (if freeName conflicts replacements g then
        stale ownerID allowed (desiredOf desired g) (rowsOf current g) else []) := by
  constructor
  · intro s hs
    rcases mem_append.1 (hrows.mem_iff.1 hs) with hs | hs
    · obtain ⟨e, -, hs⟩ := mem_flatMap.1 hs
      exact (rowsOf_wf hc (surplus_row hs)).1
    · exact hc s (mem_of_mem_filter hs)
  · refine (hrows.filter _).trans ?_
    rw [filter_append, orphaned_group hd hc hv g]
    refine (List.Perm.append_right _ (surplus_group hc hv g)).trans (List.Perm.of_eq ?_)
    cases freeName conflicts replacements g <;> simp [stale]

variable (hdec : (conflicts, replacements) = decisions rt desired current ownerID cleanup allowed)
include hdec

/-- The decisions about whole names, by name. -/
theorem lookup_decisions (g : String) :
    let d := nameDecision ownerID cleanup allowed (desiredOf desired g) (rowsOf current g)
    conflicts.lookup g = d.filter (fun op => op.type ≠ .replace) ∧
      replacements.lookup g = d.filter (fun op => op.type = .replace) ∧
      freeName conflicts replacements g = d.isNone := by
  have hlook := @lookup_cnameTransitions rt _ _ ownerID cleanup allowed hd hc g
  have hfree := @freeName_decisions rt _ _ ownerID cleanup allowed hd hc g
  rw [Prod.ext_iff] at hdec
  simp only at hdec
  simp only [← hdec.1, ← hdec.2] at hlook hfree
  exact ⟨hlook.1, hlook.2, hfree⟩

/-- The operations of a name after the first pass, with those that pairing and cleanup will add. -/
theorem decided_group (g : String) :
    let st := (visited rt desired).foldl (desiredStep current ownerID allowed conflicts replacements) {}
    ((st.operations ++ (rt.range .replacements replacements).map Prod.snd).filter
      (fun op : Operation => op.group = g) ++
      if freeName conflicts replacements g then
        (missing ownerID (desiredOf desired g) (rowsOf current g)).filterMap
            (recordReplacement ownerID cleanup allowed (desiredOf desired g) (rowsOf current g)) ++
          (created ownerID cleanup allowed (desiredOf desired g) (rowsOf current g)).map
            (fun e => ({ type := .create, desired := e, reason := "record is missing" } : Operation)) ++
          cleanupOperations ownerID cleanup allowed (desiredOf desired g) (rowsOf current g)
      else []).Perm
      (groupPlan ownerID cleanup allowed (desiredOf desired g) (rowsOf current g)) := by
  intro st
  have hv : (visited rt desired).Perm (desiredValues desired) := rangeValues_perm rt .desired
  have hvwf : ∀ e ∈ visited rt desired, e.WellFormed := fun e he => wf_of_mem_desiredValues hd (hv.mem_iff.1 he)
  have hlook := lookup_decisions hd hc hdec
  have hgc : ∀ g op, conflicts.lookup g = some op → op.group = g := by
    intro g op h
    rw [(hlook g).1] at h
    exact nameDecision_group hd (Option.filter_eq_some_iff.1 h).1
  have hgr : ∀ g op, replacements.lookup g = some op → op.group = g := by
    intro g op h
    rw [(hlook g).2.1] at h
    exact nameDecision_group hd (Option.filter_eq_some_iff.1 h).1
  rw [filter_append, operations_fold hc hgc g (visited rt desired) {} hvwf]
  have hrep := @replacements_group rt _ hgr g
  rw [(hlook g).1, (hlook g).2.2]
  rw [(hlook g).2.1] at hrep
  unfold groupPlan
  cases hn : nameDecision ownerID cleanup allowed (desiredOf desired g) (rowsOf current g) with
  | none =>
    rw [hn] at hrep
    simp only [Option.filter_none, Option.toList_none, perm_nil] at hrep
    simp only [hrep, Option.filter_none, Option.isNone_none, if_true, filter_nil, nil_append,
      append_nil]
    unfold recordPlan
    simp only [append_assoc]
    exact List.Perm.append_right _ ((filter_values_perm hv g).filterMap _)
  | some op =>
    rw [hn] at hrep
    have hmem : g ∈ (visited rt desired).map Endpoint.mutationGroupKey := by
      obtain ⟨h1, h2⟩ := mem_desiredOf.1 (nameDecision_desired hd hn)
      exact mem_map.2 ⟨_, hv.mem_iff.2 h1, h2⟩
    -- a replacement is in the second map, a conflict in the first
    by_cases hr : op.type = .replace
    · simpa [Option.filter, hr] using hrep
    · have h1 : (some op).filter (fun op => decide (op.type ≠ .replace)) = some op := by simp [Option.filter, hr]
      have h2 : (some op).filter (fun op => decide (op.type = .replace)) = none := by simp [Option.filter, hr]
      rw [h2] at hrep
      simp only [Option.toList_none, perm_nil] at hrep
      rw [h1, hrep]
      simp only
      rw [if_neg (by rintro (h | h); exacts [absurd h not_mem_nil, h hmem])]
      exact List.Perm.refl _

/-- The operations the planner has before the last sort, for one name. -/
theorem unsorted_group (g : String) :
    let st := (visited rt desired).foldl (desiredStep current ownerID allowed conflicts replacements) {}
    let stale0 := st.staleCandidates ++ (rt.range .current (groupBy Endpoint.key current)).flatMap fun p =>
      staleRows (indexDesired desired) ownerID allowed conflicts replacements st.conflictLogicalKeys p.1 p.2
    ((finishPlan cleanup (pairReplacements rt cleanup st.conflictLogicalKeys
      { operations := st.operations ++ (rt.range .replacements replacements).map Prod.snd
        createCandidates := st.createCandidates, staleCandidates := stale0 })).filter fun op => op.group = g).Perm
      (groupPlan ownerID cleanup allowed (desiredOf desired g) (rowsOf current g)) := by
  intro st stale0
  have hv : (visited rt desired).Perm (desiredValues desired) := rangeValues_perm rt .desired
  have hvwf : ∀ e ∈ visited rt desired, e.WellFormed := fun e he => wf_of_mem_desiredValues hd (hv.mem_iff.1 he)
  obtain ⟨hcreates, hsurplus, hblocked⟩ := @desired_fold _ ownerID allowed conflicts replacements
    hc (visited rt desired) {} hvwf
  simp only [nil_append] at hcreates hsurplus hblocked
  have hstale : stale0.Perm _ := List.Perm.append_left st.staleCandidates (@staleRows_perm rt
    current ownerID allowed conflicts replacements (indexDesired desired) st.conflictLogicalKeys)
  rw [hsurplus, hblocked] at hstale
  obtain ⟨hstwf, hS⟩ := stale_group hd hc hv hstale g
  have hcrwf : ∀ e ∈ st.createCandidates, e.WellFormed := by
    intro e he
    rw [hcreates] at he
    exact hvwf e (mem_of_mem_filter he)
  have hM : (st.createCandidates.filter fun e => e.mutationGroupKey = g).Perm
      (if freeName conflicts replacements g then
        missing ownerID (desiredOf desired g) (rowsOf current g) else []) := by
    rw [hcreates]
    exact creates_group hv g
  have hb : freeName conflicts replacements g = true →
      ∀ e ∈ missing ownerID (desiredOf desired g) (rowsOf current g), e.logicalKey ∉ st.conflictLogicalKeys := by
    intro hf e he
    rw [hblocked]
    exact missing_unblocked hd hv hf he
  exact (finish_group hd (freeName conflicts replacements g) hcrwf hstwf hM hS hb).trans
    (decided_group hd hc hdec g)

end Unsorted

theorem sortOperations_perm (rt : Runtime) (ops : List Operation) : (sortOperations rt ops).Perm ops :=
  (perm_insertionSort _ _).trans (rt.tieOperations_perm _)

/-- **The planner works name by name.** -/
theorem buildWithCleanupScope_group (rt : Runtime) (hd : ∀ e ∈ desired, e.WellFormed)
    (hc : ∀ c ∈ current, c.WellFormed) (ownerID : String) (cleanup : CleanupPolicy) (allowed : Endpoint → Bool)
    (g : String) :
    ((buildWithCleanupScope rt desired current ownerID cleanup allowed).filter fun op => op.group = g).Perm
      (groupPlan ownerID cleanup allowed (desiredOf desired g) (rowsOf current g)) := by
  unfold buildWithCleanupScope
  simp only [map_normalize_eq hc]
  rw [planDesiredAll_eq hd]
  exact ((sortOperations_perm rt _).filter _).trans (unsorted_group hd hc rfl g)

end FortigateDns
