import FortigateDns.Proof.PlanIndex

/-!
# The planner's passes in closed form

What the loops after the name-level decisions collect, as lists.
-/

namespace FortigateDns

open Go GoMap List

variable {rt : Runtime} {desired current : List Endpoint} {ownerID : String} {cleanup : CleanupPolicy}
variable {allowed : Endpoint → Bool} {conflicts replacements : GoMap Operation}
variable {e : Endpoint}

/-- A name without a conflict and without an in-place replacement. -/
def freeName (conflicts replacements : GoMap Operation) (g : String) : Bool :=
  (conflicts.lookup g).isNone && (replacements.lookup g).isNone

/-- The loop body on the rows `current`. -/
abbrev desiredStep (current : List Endpoint) (ownerID : String) (allowed : Endpoint → Bool)
    (conflicts replacements : GoMap Operation) (st : PlanState) (e : Endpoint) : PlanState :=
  planDesired (groupBy Endpoint.key current) (groupBy Endpoint.logicalKey current) ownerID allowed
    conflicts replacements st e.key e

/-- The loop body at a name that is decided record by record. -/
theorem desiredStep_free (hc : ∀ c ∈ current, c.WellFormed) {e : Endpoint} (he : e.WellFormed)
    (hf : freeName conflicts replacements e.mutationGroupKey = true) (st : PlanState) :
    desiredStep current ownerID allowed conflicts replacements st e =
      let C := rowsOf current e.mutationGroupKey
      { operations := st.operations ++ (recordOperation ownerID C e).toList
        createCandidates := st.createCandidates ++
          if unownedSiblings ownerID C e = [] ∧ copies ownerID C e = [] then [e] else []
        staleCandidates := st.staleCandidates ++ duplicatesOf ownerID allowed C e
        conflictLogicalKeys := st.conflictLogicalKeys ++
          if unownedSiblings ownerID C e = [] then [] else [e.logicalKey]
        reported := st.reported } := by
  simp only [freeName, Bool.and_eq_true, Option.isNone_iff_eq_none] at hf
  have hU : (partitionOwned ((groupBy Endpoint.logicalKey current).slice e.logicalKey) ownerID).2 =
      unownedSiblings ownerID (rowsOf current e.mutationGroupKey) e := by
    unfold unownedSiblings
    rw [slice_groupBy, filter_logical_rowsOf hc he]
  have hK : (partitionOwned ((groupBy Endpoint.key current).slice e.key) ownerID).1 =
      copies ownerID (rowsOf current e.mutationGroupKey) e := by
    unfold copies
    rw [slice_groupBy, filter_key_rowsOf hc he]
  unfold desiredStep planDesired recordOperation recordUpdate recordConflict duplicatesOf
  simp only [hf.1, hf.2, hU, hK]
  cases unownedSiblings ownerID (rowsOf current e.mutationGroupKey) e with
  | cons c l => simp
  | nil =>
    cases copies ownerID (rowsOf current e.mutationGroupKey) e with
    | nil => simp
    | cons kept dups => cases h : kept.equalRecord e <;> simp [h]

theorem desiredStep_conflict {op : Operation} (h : conflicts.lookup e.mutationGroupKey = some op)
    (st : PlanState) :
    desiredStep current ownerID allowed conflicts replacements st e =
      if e.mutationGroupKey ∈ st.reported then st
      else { st with operations := st.operations ++ [op], reported := st.reported ++ [e.mutationGroupKey] } := by
  unfold desiredStep planDesired
  simp only [h]

theorem desiredStep_replaced (h1 : conflicts.lookup e.mutationGroupKey = none)
    (h2 : freeName conflicts replacements e.mutationGroupKey = false) (st : PlanState) :
    desiredStep current ownerID allowed conflicts replacements st e = st := by
  unfold desiredStep planDesired
  have h3 : (replacements.lookup e.mutationGroupKey).isSome = true := by
    simpa [freeName, h1, Option.isSome_iff_ne_none] using h2
  simp [h1, h3]

/-- Outside the free names the body collects nothing but conflict reports. -/
theorem desiredStep_decided {e : Endpoint} (h : freeName conflicts replacements e.mutationGroupKey = false)
    (st : PlanState) :
    let st' := desiredStep current ownerID allowed conflicts replacements st e
    st'.createCandidates = st.createCandidates ∧ st'.staleCandidates = st.staleCandidates ∧
      st'.conflictLogicalKeys = st.conflictLogicalKeys := by
  cases hl : conflicts.lookup e.mutationGroupKey with
  | none => rw [desiredStep_replaced hl h]; simp
  | some op => rw [desiredStep_conflict hl]; split <;> simp

section

variable (current ownerID allowed conflicts replacements)

/-- The endpoints the pass wants to create. -/
def isMissing (e : Endpoint) : Bool :=
  freeName conflicts replacements e.mutationGroupKey &&
    decide (unownedSiblings ownerID (rowsOf current e.mutationGroupKey) e = [] ∧
      copies ownerID (rowsOf current e.mutationGroupKey) e = [])

/-- The surplus rows the pass collects for one endpoint. -/
def surplus (e : Endpoint) : List Endpoint :=
  if freeName conflicts replacements e.mutationGroupKey then
    duplicatesOf ownerID allowed (rowsOf current e.mutationGroupKey) e else []

/-- The endpoints whose logical record the pass finds blocked by an unowned row. -/
def isBlocked (e : Endpoint) : Bool :=
  freeName conflicts replacements e.mutationGroupKey &&
    decide (unownedSiblings ownerID (rowsOf current e.mutationGroupKey) e ≠ [])

end

/-- What the pass collects besides operations. -/
theorem desired_fold (hc : ∀ c ∈ current, c.WellFormed) :
    ∀ (l : List Endpoint) (st : PlanState), (∀ e ∈ l, e.WellFormed) →
      let st' := l.foldl (desiredStep current ownerID allowed conflicts replacements) st
      st'.createCandidates =
          st.createCandidates ++ l.filter (isMissing current ownerID conflicts replacements) ∧
        st'.staleCandidates =
          st.staleCandidates ++ l.flatMap (surplus current ownerID allowed conflicts replacements) ∧
        st'.conflictLogicalKeys = st.conflictLogicalKeys ++
          (l.filter (isBlocked current ownerID conflicts replacements)).map Endpoint.logicalKey := by
  intro l
  induction l with
  | nil => intro st _; simp
  | cons e l ih =>
    intro st hl
    obtain ⟨ih1, ih2, ih3⟩ := ih (desiredStep current ownerID allowed conflicts replacements st e)
      (fun x hx => hl x (mem_cons_of_mem _ hx))
    simp only [foldl_cons]
    rw [ih1, ih2, ih3, filter_cons, flatMap_cons, filter_cons]
    by_cases hf : freeName conflicts replacements e.mutationGroupKey = true
    · rw [desiredStep_free hc (hl e mem_cons_self) hf]
      by_cases hu : unownedSiblings ownerID (rowsOf current e.mutationGroupKey) e = []
      · by_cases hk : copies ownerID (rowsOf current e.mutationGroupKey) e = [] <;>
          simp [isMissing, surplus, isBlocked, hf, hu, hk]
      · simp [isMissing, surplus, isBlocked, hf, hu]
    · rw [Bool.not_eq_true] at hf
      obtain ⟨h1, h2, h3⟩ := @desiredStep_decided current ownerID allowed _ _ _ hf st
      rw [h1, h2, h3]
      simp [isMissing, surplus, isBlocked, hf]

theorem recordOperation_desired {C : List Endpoint} {op : Operation} (h : recordOperation ownerID C e = some op) :
    op.desired = e := by
  unfold recordOperation recordUpdate recordConflict at h
  split at h
  · obtain ⟨kept, -, h⟩ := Option.bind_eq_some_iff.1 h
    split at h
    · simp at h
    · cases h; rfl
  · obtain ⟨c, -, rfl⟩ := Option.map_eq_some_iff.1 h; rfl

theorem Operation.group_of_desired {op : Operation} (he : e.WellFormed) (h : op.desired = e) :
    op.group = e.mutationGroupKey := by
  unfold Operation.group
  rw [h, if_pos he.name]

/-- The operations the pass emits for one name. -/
theorem operations_fold (hc : ∀ c ∈ current, c.WellFormed)
    (hgroup : ∀ g op, conflicts.lookup g = some op → op.group = g) (g : String) :
    ∀ (l : List Endpoint) (st : PlanState), (∀ e ∈ l, e.WellFormed) →
      (l.foldl (desiredStep current ownerID allowed conflicts replacements) st).operations.filter
          (fun op => op.group = g) =
        st.operations.filter (fun op => op.group = g) ++
          match conflicts.lookup g with
          | some op => if g ∈ st.reported ∨ g ∉ l.map Endpoint.mutationGroupKey then [] else [op]
          | none =>
            if freeName conflicts replacements g then
              (l.filter fun e => e.mutationGroupKey = g).filterMap (recordOperation ownerID (rowsOf current g))
            else [] := by
  intro l
  induction l with
  | nil => intro st _; cases conflicts.lookup g <;> simp
  | cons e l ih =>
    intro st hl
    have he := hl e mem_cons_self
    rw [foldl_cons, ih _ (fun x hx => hl x (mem_cons_of_mem _ hx))]
    cases hcf : conflicts.lookup e.mutationGroupKey with
    | some op' =>
      rw [desiredStep_conflict hcf]
      by_cases hr : e.mutationGroupKey ∈ st.reported
      · rw [if_pos hr]
        by_cases hg : e.mutationGroupKey = g
        · subst hg; simp [hcf, hr]
        · simp [hg, Ne.symm hg]
      · rw [if_neg hr]
        by_cases hg : e.mutationGroupKey = g
        · subst hg; simp [hcf, hr, hgroup _ _ hcf]
        · have : op'.group ≠ g := by rw [hgroup _ _ hcf]; exact hg
          simp [hg, Ne.symm hg, this]
    | none =>
      by_cases hf : freeName conflicts replacements e.mutationGroupKey = true
      · rw [desiredStep_free hc he hf]
        have hgr : ∀ op ∈ (recordOperation ownerID (rowsOf current e.mutationGroupKey) e).toList,
            op.group = e.mutationGroupKey := by
          intro op hop
          exact Operation.group_of_desired he (recordOperation_desired (Option.mem_toList.1 hop))
        by_cases hg : e.mutationGroupKey = g
        · subst hg
          have : (recordOperation ownerID (rowsOf current e.mutationGroupKey) e).toList.filter
              (fun op => decide (op.group = e.mutationGroupKey)) =
              (recordOperation ownerID (rowsOf current e.mutationGroupKey) e).toList :=
            filter_eq_self.2 (fun op hop => by simpa using hgr op hop)
          simp only [filter_append, this, hcf, hf, if_true, append_assoc]
          rw [filter_cons_of_pos (by simp), filterMap_cons]
          cases recordOperation ownerID (rowsOf current e.mutationGroupKey) e <;> simp
        · have : (recordOperation ownerID (rowsOf current e.mutationGroupKey) e).toList.filter
              (fun op => decide (op.group = g)) = [] :=
            filter_eq_nil_iff.2 (fun op hop => by rw [hgr op hop]; simpa using hg)
          simp [this, hg, Ne.symm hg]
      · rw [Bool.not_eq_true] at hf
        rw [desiredStep_replaced hcf hf]
        by_cases hg : e.mutationGroupKey = g
        · subst hg; simp [hcf, hf]
        · simp [hg, Ne.symm hg]

/-- The pass over the rows. -/
theorem staleRows_perm (desiredByKey : GoMap Endpoint) (blocked : List String) :
    ((rt.range .current (groupBy Endpoint.key current)).flatMap fun p =>
      staleRows desiredByKey ownerID allowed conflicts replacements blocked p.1 p.2).Perm
      (current.filter fun c => !(desiredByKey.lookup c.key).isSome &&
        (freeName conflicts replacements c.mutationGroupKey && !blocked.contains c.logicalKey &&
          ownedBy c ownerID && allowed c)) := by
  have h := flatMap_range_groupBy (rt.order_perm .current) Endpoint.key current fun k c =>
    !(desiredByKey.lookup k).isSome && (freeName conflicts replacements c.mutationGroupKey &&
      !blocked.contains c.logicalKey && ownedBy c ownerID && allowed c)
  refine List.Perm.trans (List.Perm.of_eq ?_) h
  unfold Runtime.range
  apply flatMap_congr
  intro p _
  unfold staleRows
  cases (desiredByKey.lookup p.1).isSome with
  | true => simp
  | false => simp [freeName]

/-- When exactly one element satisfies `q`, erasing it is filtering it out. -/
theorem eraseP_eq_filter {α : Type} {p q : α → Bool} {c : α} :
    ∀ (l : List α), (∀ x ∈ l, p x = true → q x = true) → p c = true → l.filter q = [c] →
      l.eraseP p = l.filter fun x => !q x := by
  intro l
  induction l with
  | nil => intro _ _ h; simp at h
  | cons x l ih =>
    intro hpq hc h
    rw [filter_cons] at h
    by_cases hq : q x = true
    · rw [if_pos hq, List.cons.injEq] at h
      obtain ⟨rfl, h⟩ := h
      have hl : l.filter (fun y => !q y) = l := by
        rw [filter_eq_self]
        intro y hy
        have := filter_eq_nil_iff.1 h y hy
        simpa using this
      simp [eraseP_cons_of_pos hc, hq, hl]
    · rw [if_neg hq] at h
      have hp : ¬ p x = true := fun hp => hq (hpq x mem_cons_self hp)
      rw [eraseP_cons_of_neg hp, ih (fun y hy => hpq y (mem_cons_of_mem _ hy)) hc h]
      simp [hq]

/-- The replacement that pairing finds for one logical record. -/
def pairing (blocked : List String) (creates stale : List Endpoint) (logical : String) : Option Operation :=
  if blocked.contains logical then none
  else
    match creates.filter (fun e => e.logicalKey = logical), stale.filter (fun s => s.logicalKey = logical) with
    | [c], [s] =>
      if hasProviderID s then
        some { type := .replace, desired := c, current := s, reason := "record target changed" }
      else none
    | _, _ => none

theorem pairing_eq_some {blocked : List String} {creates stale : List Endpoint} {logical : String}
    {op : Operation} :
    pairing blocked creates stale logical = some op ↔
      logical ∉ blocked ∧ ∃ c s, creates.filter (fun e => e.logicalKey = logical) = [c] ∧
        stale.filter (fun s => s.logicalKey = logical) = [s] ∧ hasProviderID s = true ∧
        op = { type := .replace, desired := c, current := s, reason := "record target changed" } := by
  unfold pairing
  by_cases hb : logical ∈ blocked
  · simp [hb]
  · rw [if_neg (by simpa using hb)]
    constructor
    · intro h
      split at h
      · rename_i c s hc hs
        split at h
        · rename_i hp
          exact ⟨hb, c, s, hc, hs, hp, (Option.some.inj h).symm⟩
        · simp at h
      · simp at h
    · rintro ⟨-, c, s, hc, hs, hp, rfl⟩
      rw [hc, hs]
      simp [hp]

/-- Taking one logical record out of both candidate lists. -/
theorem pairLogical_eq {blocked : List String} {creates stale : List Endpoint}
    (hcr : ∀ e ∈ creates, e.WellFormed) (hst : ∀ s ∈ stale, s.WellFormed) {done : List String}
    {logical : String} (hd : logical ∉ done) (ops : List Operation) :
    pairLogical blocked (groupBy Endpoint.logicalKey stale)
      { operations := ops
        createCandidates := creates.filter fun e => !done.contains e.logicalKey
        staleCandidates := stale.filter fun s => !done.contains s.logicalKey }
      logical (creates.filter fun e => e.logicalKey = logical) =
      let taken := if (pairing blocked creates stale logical).isSome then [logical] else []
      { operations := ops ++ (pairing blocked creates stale logical).toList
        createCandidates := creates.filter fun e => !(done ++ taken).contains e.logicalKey
        staleCandidates := stale.filter fun s => !(done ++ taken).contains s.logicalKey } := by
  cases hp : pairing blocked creates stale logical with
  | some op =>
    obtain ⟨hb, c, s, hc, hs, hpid, rfl⟩ := pairing_eq_some.1 hp
    unfold pairLogical removeEndpoint
    rw [if_neg (by simpa using hb), slice_groupBy, hc, hs]
    -- nothing else has the logical record of the pair
    have herase : ∀ (l : List Endpoint) (x : Endpoint), (∀ e ∈ l, e.WellFormed) →
        l.filter (fun e => e.logicalKey = logical) = [x] →
        (l.filter fun e => !done.contains e.logicalKey).eraseP (fun e => e.key == x.key) =
          l.filter fun e => !(done ++ [logical]).contains e.logicalKey := by
      intro l x hl hx
      have hxm : x ∈ l.filter (fun e => e.logicalKey = logical) := by rw [hx]; exact mem_singleton_self x
      rw [mem_filter, decide_eq_true_eq] at hxm
      rw [eraseP_eq_filter (q := fun e => decide (e.logicalKey = logical)) (c := x)]
      · rw [filter_filter]
        apply filter_congr
        intro e _
        by_cases h : e.logicalKey = logical <;> simp [h]
      · intro e he hk
        have he' := hl e (mem_of_mem_filter he)
        rw [beq_iff_eq] at hk
        rw [decide_eq_true_eq, logicalKey_of_key he' (hl x hxm.1) hk, hxm.2]
      · simp
      · rw [filter_filter, ← hx]
        apply filter_congr
        intro e _
        by_cases h : e.logicalKey = logical
        · simp [h, hd]
        · simp [h]
    simp only [hpid, herase creates c hcr hc, herase stale s hst hs]
    rfl
  | none =>
    unfold pairLogical
    unfold pairing at hp
    rw [slice_groupBy]
    by_cases hb : blocked.contains logical = true
    · rw [if_pos hb]; simp
    · rw [if_neg hb] at hp ⊢
      split
      · rename_i c s hc hs
        rw [hc, hs] at hp
        have hpid : hasProviderID s = false := by simpa using hp
        simp [hpid]
      · simp

theorem pair_fold {blocked : List String} {creates stale : List Endpoint}
    (hcr : ∀ e ∈ creates, e.WellFormed) (hst : ∀ s ∈ stale, s.WellFormed) :
    ∀ (l : List (String × List Endpoint)) (done : List String) (ops : List Operation),
      (l.map Prod.fst).Nodup → (∀ p ∈ l, p.1 ∉ done) →
      (∀ p ∈ l, p.2 = creates.filter fun e => e.logicalKey = p.1) →
      l.foldl (fun st p => pairLogical blocked (groupBy Endpoint.logicalKey stale) st p.1 p.2)
        { operations := ops
          createCandidates := creates.filter fun e => !done.contains e.logicalKey
          staleCandidates := stale.filter fun s => !done.contains s.logicalKey } =
      let taken := (l.map Prod.fst).filter fun k => (pairing blocked creates stale k).isSome
      { operations := ops ++ (l.map Prod.fst).filterMap (pairing blocked creates stale)
        createCandidates := creates.filter fun e => !(done ++ taken).contains e.logicalKey
        staleCandidates := stale.filter fun s => !(done ++ taken).contains s.logicalKey } := by
  intro l
  induction l with
  | nil => intro done ops _ _ _; simp
  | cons p l ih =>
    intro done ops hnd hdone hp
    simp only [map_cons, nodup_cons] at hnd
    rw [foldl_cons, hp p mem_cons_self, pairLogical_eq hcr hst (hdone p mem_cons_self)]
    simp only
    rw [ih _ _ hnd.2]
    · cases hs : pairing blocked creates stale p.1 <;> simp [hs]
    · intro q hq
      have hne : q.1 ≠ p.1 := fun h => hnd.1 (h ▸ mem_map_of_mem hq)
      have := hdone q (mem_cons_of_mem _ hq)
      split <;> simp [this, hne]
    · exact fun q hq => hp q (mem_cons_of_mem _ hq)

/-- The replacements that pairing finds under a policy. -/
def pairingUnder (cleanup : CleanupPolicy) (blocked : List String) (creates stale : List Endpoint)
    (logical : String) : Option Operation :=
  if cleanup = .delete then pairing blocked creates stale logical else none

/-- **Pairing**: one replacement per pairable logical record, and both candidate lists without
the records it took. -/
theorem pairReplacements_eq {blocked : List String} {creates stale : List Endpoint}
    (hcr : ∀ e ∈ creates, e.WellFormed) (hst : ∀ s ∈ stale, s.WellFormed) (ops : List Operation) :
    ∃ logicals : List String, logicals.Nodup ∧ (∀ k, k ∈ logicals ↔ k ∈ creates.map Endpoint.logicalKey) ∧
      pairReplacements rt cleanup blocked
        { operations := ops, createCandidates := creates, staleCandidates := stale } =
      { operations := ops ++ logicals.filterMap (pairingUnder cleanup blocked creates stale)
        createCandidates :=
          creates.filter fun e => (pairingUnder cleanup blocked creates stale e.logicalKey).isNone
        staleCandidates :=
          stale.filter fun s => (pairingUnder cleanup blocked creates stale s.logicalKey).isNone } := by
  refine ⟨(rt.range .logical (groupBy Endpoint.logicalKey creates)).map Prod.fst,
    range_keys_nodup (rt.order_perm _) _, mem_range_groupBy_keys (rt.order_perm _) _ _, ?_⟩
  unfold pairReplacements pairingUnder
  by_cases hdel : cleanup = .delete
  · simp only [if_pos hdel]
    have h := @pair_fold blocked _ _ hcr hst (rt.range .logical (groupBy Endpoint.logicalKey creates))
      [] ops (range_keys_nodup (rt.order_perm _) _) (by simp)
      (fun p hp => mem_range_groupBy (rt.order_perm _) _ _ hp)
    simp only [contains_nil, Bool.not_false, filter_true, nil_append] at h
    rw [h]
    -- a logical record with a pairing is visited
    have hvis : ∀ k, ((rt.range .logical (groupBy Endpoint.logicalKey creates)).map Prod.fst |>.filter
        fun k => (pairing blocked creates stale k).isSome).contains k =
        (pairing blocked creates stale k).isSome := by
      intro k
      rw [Bool.eq_iff_iff, contains_iff_mem, mem_filter, and_iff_right_iff_imp]
      intro hk
      obtain ⟨op, hop⟩ := Option.isSome_iff_exists.1 hk
      obtain ⟨-, c, s, hc, -⟩ := pairing_eq_some.1 hop
      have hcm : c ∈ creates.filter (fun e => e.logicalKey = k) := by rw [hc]; exact mem_singleton_self c
      rw [mem_filter, decide_eq_true_eq] at hcm
      exact (mem_range_groupBy_keys (rt.order_perm _) _ _ _).2 (mem_map.2 ⟨c, hcm.1, hcm.2⟩)
    simp only [hvis, Option.not_isSome]
  · simp [hdel]

end FortigateDns
