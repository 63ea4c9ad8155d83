import FortigateDns.Proof.Convergence
import FortigateDns.Proof.PlanOrder
import FortigateDns.Spec.Client

/-!
# Make before break

Executing a plan never removes the last record of a name: when the client sends a DELETE or
a deactivating PUT for a row, the device already holds every desired record of that name.
-/

namespace FortigateDns

open Go List Bool

variable {rt : Runtime} {desired table device : List Endpoint} {ownerID newID : String}
variable {cleanup : CleanupPolicy} {allowed : Endpoint → Bool} {e r : Endpoint} {op : Operation}
variable {cfg : ClientConfig} {operationID : Operation → String} {request : Request}
variable (applied : Applied)

/-- The row a request addresses. -/
def Request.target : Request → Option String
  | .post _ _ => none
  | .put id _ _ => some id
  | .delete id => some id

/-- The device after a request has taken effect `k` times. -/
def Request.performs (request : Request) (newID : String) (k : ℕ) (device : List Endpoint) : List Endpoint :=
  (fun d => request.perform newID d)^[k] device

theorem performs_add (j k : ℕ) :
    request.performs newID j (request.performs newID k device) = request.performs newID (j + k) device :=
  (Function.iterate_add_apply _ j k device).symm

theorem addresses_iff {id : String} : addresses id r = true ↔ rowID r = id := beq_iff_eq

theorem mem_perform (h : request.target ≠ some (rowID r)) (hr : r ∈ device) :
    r ∈ request.perform newID device := by
  cases request with
  | post body record => exact mem_append_left _ hr
  | put id body record =>
    have hne : addresses id r = false := by
      rw [← not_eq_true, addresses_iff]
      exact fun hid => h (congrArg some hid.symm)
    exact mem_map.2 ⟨r, hr, by simp [hne]⟩
  | delete id =>
    have hne : addresses id r = false := by
      rw [← not_eq_true, addresses_iff]
      exact fun hid => h (congrArg some hid.symm)
    exact mem_filter.2 ⟨hr, by simp [hne]⟩

theorem mem_performs (h : request.target ≠ some (rowID r)) (hr : r ∈ device) (k : ℕ) :
    r ∈ request.performs newID k device := by
  induction k with
  | zero => exact hr
  | succ k ih =>
    unfold Request.performs at ih ⊢
    rw [Function.iterate_succ_apply']
    exact mem_perform h ih

/-- A PUT that took effect at least once stores the record in the row it addresses. -/
theorem mem_performs_put {body : FortiRecord} {record : Endpoint} (hr : r ∈ device) :
    ∀ k, 0 < k → overwrite r record ∈ (Request.put (rowID r) body record).performs newID k device := by
  intro k hk
  obtain ⟨k, rfl⟩ : ∃ j, k = j + 1 := ⟨k - 1, by omega⟩
  have hstep : ∀ d : List Endpoint, ∀ q ∈ d, rowID q = rowID r →
      overwrite q record ∈ (Request.put (rowID r) body record).perform newID d := by
    intro d q hq hid
    exact mem_map.2 ⟨q, hq, if_pos (addresses_iff.2 hid)⟩
  unfold Request.performs
  induction k with
  | zero => exact hstep device r hr rfl
  | succ k ih =>
    rw [Function.iterate_succ_apply']
    -- overwriting the row again changes nothing
    exact hstep _ (overwrite r record) (ih (by omega)) rfl

/-- **The attempts of a request** leave the device as the request taking effect some number
of times does, at least once if it succeeds; so was the device each time it was sent. -/
theorem doJSON_spec (exchange : ℕ → Exchange) (attempts : ℕ) (device : List Endpoint) :
    let a := doJSON op request newID exchange attempts device
    (∃ k, a.device = request.performs newID k device ∧ (a.err = none → 0 < k)) ∧
      ∀ s ∈ a.sent, s.operation = op ∧ s.request = request ∧ s.newID = newID ∧
        ∃ k, s.device = request.performs newID k device := by
  induction attempts generalizing device with
  | zero => exact ⟨⟨0, rfl, by simp [doJSON]⟩, by simp [doJSON]⟩
  | succ n ih =>
    unfold doJSON
    cases hx : exchange n with
    | success =>
      refine ⟨⟨1, rfl, fun _ => Nat.one_pos⟩, ?_⟩
      intro s hs
      rw [mem_singleton.1 hs]
      exact ⟨rfl, rfl, rfl, 0, rfl⟩
    | failure tookEffect transient =>
      obtain ⟨j, hj⟩ : ∃ j, (if tookEffect = true then request.perform newID device else device) =
          request.performs newID j device := by
        cases tookEffect
        · exact ⟨0, rfl⟩
        · exact ⟨1, rfl⟩
      simp only [hj]
      by_cases hretry : (request.retryable && transient) = true
      · -- another attempt, on what this one left
        rw [if_pos hretry]
        obtain ⟨⟨k, hk, hpos⟩, hsent⟩ := ih (request.performs newID j device)
        refine ⟨⟨k + j, by rw [← performs_add]; exact hk, fun herr => by have := hpos herr; omega⟩, ?_⟩
        intro s hs
        rcases mem_cons.1 hs with rfl | hs
        · exact ⟨rfl, rfl, rfl, 0, rfl⟩
        · obtain ⟨h1, h2, h3, i, hi⟩ := hsent s hs
          exact ⟨h1, h2, h3, i + j, by rw [hi, performs_add]⟩
      · rw [if_neg hretry]
        refine ⟨⟨j, rfl, by simp⟩, ?_⟩
        intro s hs
        rw [mem_singleton.1 hs]
        exact ⟨rfl, rfl, rfl, 0, rfl⟩

theorem currentProviderID_ok {id : String} (h : currentProviderID op = .ok id) : id = rowID op.current := by
  unfold currentProviderID at h
  simp only at h
  split at h
  · simp at h
  · split at h
    · exact (Except.ok.inj h).symm
    · simp at h

/-- The request of an operation addresses the row the operation is about. -/
theorem buildRequest_target (h : buildRequest cfg op = .ok request) (hm : op.type.mutatesRow = true) :
    request.target = some (rowID op.current) := by
  unfold buildRequest at h
  cases hid : currentProviderID op with
  | error err => cases ht : op.type <;> simp [ht, hid, OperationType.mutatesRow, bind, Except.bind] at h hm
  | ok id =>
    rw [← currentProviderID_ok hid]
    cases hb : endpointToRecord op.desired cfg.zone <;> cases ht : op.type <;>
      simp [ht, hid, hb, OperationType.mutatesRow, bind, Except.bind, pure, Except.pure] at h hm <;>
      (subst h; rfl)

theorem buildRequest_create (h : buildRequest cfg op = .ok request) (hm : op.type.mutatesRow = false) :
    request.target = none := by
  unfold buildRequest at h
  cases hb : endpointToRecord op.desired cfg.zone <;> cases ht : op.type <;>
    simp [ht, hb, OperationType.mutatesRow, bind, Except.bind, pure, Except.pure] at h hm
  subst h; rfl

theorem buildRequest_put (h : buildRequest cfg op = .ok request) (ht : op.type = .update ∨ op.type = .replace) :
    ∃ body, request = .put (rowID op.current) body op.desired := by
  unfold buildRequest at h
  cases hid : currentProviderID op with
  | error err => rcases ht with ht | ht <;> simp [ht, hid, bind, Except.bind] at h
  | ok id =>
    rw [← currentProviderID_ok hid]
    cases hb : endpointToRecord op.desired cfg.zone with
    | error err => rcases ht with ht | ht <;> simp [ht, hid, hb, bind, Except.bind] at h
    | ok body =>
      refine ⟨body, ?_⟩
      rcases ht with ht | ht <;> simp [ht, hid, hb, bind, Except.bind, pure, Except.pure] at h <;> exact h.symm

section

variable {turn : Turn}

/-- An operation touches no row but the one it is about. -/
theorem applyOne_frame (hr : r ∈ device) (hne : op.type.mutatesRow = true → rowID op.current ≠ rowID r) :
    r ∈ (applyOne cfg op turn device).device := by
  unfold applyOne
  cases hb : buildRequest cfg op with
  | error err => exact hr
  | ok request =>
    obtain ⟨⟨k, hk, -⟩, -⟩ := @doJSON_spec turn.newID op request turn.exchange (cfg.retries + 1) device
    simp only [hk]
    refine mem_performs ?_ hr k
    cases hm : op.type.mutatesRow with
    | false => rw [buildRequest_create hb hm]; simp
    | true =>
      rw [buildRequest_target hb hm]
      exact fun h => hne hm (Option.some.inj h)

/-- A successful update or replacement leaves the desired record in its row. -/
theorem applyOne_written (ht : op.type = .update ∨ op.type = .replace) (hr : op.current ∈ device)
    (hok : (applyOne cfg op turn device).err = none) :
    overwrite op.current op.desired ∈ (applyOne cfg op turn device).device := by
  unfold applyOne at hok ⊢
  cases hb : buildRequest cfg op with
  | error err => simp [hb] at hok
  | ok request =>
    simp only [hb] at hok
    obtain ⟨body, hput⟩ := buildRequest_put hb ht
    obtain ⟨⟨k, hk, hpos⟩, -⟩ := @doJSON_spec turn.newID op request turn.exchange (cfg.retries + 1) device
    simp only [hk]
    rw [hput]
    exact mem_performs_put hr k (hpos hok)

/-- When a request about a row is sent, and after it, the device has all other rows it had
before the operation. -/
theorem applyOne_sent {s : Sent} (hs : s ∈ (applyOne cfg op turn device).sent) (hm : op.type.mutatesRow = true)
    (hr : r ∈ device) (hne : rowID op.current ≠ rowID r) :
    r ∈ s.device ∧ r ∈ s.request.perform s.newID s.device := by
  unfold applyOne at hs
  cases hb : buildRequest cfg op with
  | error err => simp [hb] at hs
  | ok request =>
    simp only [hb] at hs
    obtain ⟨-, hreq, hid, k, hk⟩ :=
      (@doJSON_spec turn.newID op request turn.exchange (cfg.retries + 1) device).2 s hs
    have htarget : request.target ≠ some (rowID r) := by
      rw [buildRequest_target hb hm]
      exact fun h => hne (Option.some.inj h)
    have hmem : r ∈ request.performs turn.newID k device := mem_performs htarget hr k
    rw [hk, hreq, hid]
    exact ⟨hmem, mem_perform htarget hmem⟩

theorem applyOne_operation {s : Sent} (hs : s ∈ (applyOne cfg op turn device).sent) : s.operation = op := by
  unfold applyOne at hs
  cases hb : buildRequest cfg op with
  | error err => simp [hb] at hs
  | ok request =>
    simp only [hb] at hs
    exact ((@doJSON_spec turn.newID op request turn.exchange (cfg.retries + 1) device).2 s hs).1

end

/-- **The invariant of the apply loop**, for the operations `done` so far: a row that none of
them is about is still there, and a row that one of them updates or replaces holds the
desired record, unless its name has a failed prerequisite. -/
structure Progress (table : List Endpoint) (done : List Operation) (st : ApplyState) : Prop where
  kept : ∀ c ∈ table, (∀ op ∈ done, op.type.mutatesRow = true → rowID op.current ≠ rowID c) → c ∈ st.device
  written : ∀ op ∈ done, op.type = .update ∨ op.type = .replace →
    op.desired.mutationGroupKey ∉ st.failedPrerequisiteGroups →
      ∃ r ∈ st.device, rowID r = rowID op.current ∧ r.equalRecord op.desired = true

section

variable {done : List Operation} {st : ApplyState}

/-- An operation that is not executed and is neither an update nor a replacement. -/
theorem Progress.skip (h : Progress table done st) (ht : ¬(op.type = .update ∨ op.type = .replace))
    (result : ApplyOutcome) (reason : String) :
    Progress table (done ++ [op]) (st.recordOutcome operationID op result reason) where
  kept c hc hne := h.kept c hc fun op' hop' => hne op' (mem_append_left _ hop')
  written op' hop' ht' hg := by
    rcases mem_append.1 hop' with hop' | hop'
    · exact h.written op' hop' ht' hg
    · rw [mem_singleton.1 hop'] at ht'
      exact absurd ht' ht

theorem record_device : (st.record operationID op applied).device = applied.device := by
  unfold ApplyState.record
  cases applied.err <;> rfl

theorem record_sent : (st.record operationID op applied).sent = st.sent ++ applied.sent := by
  unfold ApplyState.record
  cases applied.err <;> rfl

theorem record_failed :
    (st.record operationID op applied).failedPrerequisiteGroups =
      if applied.err.isSome && isCleanupPrerequisite op.type then
        op.desired.mutationGroupKey :: st.failedPrerequisiteGroups
      else st.failedPrerequisiteGroups := by
  unfold ApplyState.record
  cases applied.err <;> rfl

theorem isCleanupPrerequisite_of_written {t : OperationType} (h : t = .update ∨ t = .replace) :
    isCleanupPrerequisite t = true ∧ t.mutatesRow = true := by
  rcases h with rfl | rfl <;> exact ⟨rfl, rfl⟩

/-- **The step of the invariant**: one executed operation, about a row that none of the
earlier ones is about. -/
theorem Progress.record (h : Progress table done st) (hrow : op.type.mutatesRow = true → op.current ∈ table)
    (hne : op.type.mutatesRow = true → ∀ op' ∈ done, op'.type.mutatesRow = true →
      rowID op'.current ≠ rowID op.current) (turn : Turn) :
    Progress table (done ++ [op]) (st.record operationID op (applyOne cfg op turn st.device)) where
  kept c hc hfree := by
    rw [record_device]
    refine applyOne_frame (h.kept c hc fun op' hop' => hfree op' (mem_append_left _ hop')) ?_
    exact hfree op (mem_append_right _ (mem_singleton.2 rfl))
  written op' hop' ht' hg := by
    rw [record_failed] at hg
    rw [record_device]
    rcases mem_append.1 hop' with hop' | hop'
    · have hg' : op'.desired.mutationGroupKey ∉ st.failedPrerequisiteGroups := by
        split at hg
        · exact fun hm => hg (mem_cons_of_mem _ hm)
        · exact hg
      obtain ⟨r, hr, hid, heq⟩ := h.written op' hop' ht' hg'
      refine ⟨r, applyOne_frame hr fun hm => ?_, hid, heq⟩
      rw [hid]
      exact (hne hm op' hop' (isCleanupPrerequisite_of_written ht').2).symm
    · rw [mem_singleton.1 hop'] at ht' hg ⊢
      obtain ⟨hpre, hm⟩ := isCleanupPrerequisite_of_written ht'
      have hcur : op.current ∈ st.device := h.kept _ (hrow hm) fun op' hop' hm' => hne hm op' hop' hm'
      have hok : (applyOne cfg op turn st.device).err = none := by
        cases herr : (applyOne cfg op turn st.device).err with
        | none => rfl
        | some err => simp [herr, hpre] at hg
      exact ⟨_, applyOne_written ht' hcur hok, rfl, equalRecord_overwrite _ _⟩

/-- The operations of a plan are about different rows. -/
theorem earlier_row_ne {plan rest : List Operation} {op' : Operation}
    (hnd : ((plan.filter fun op => op.type.mutatesRow).map fun op => rowID op.current).Nodup)
    (hplan : plan = done ++ op :: rest) (hm : op.type.mutatesRow = true) (hop' : op' ∈ done)
    (hm' : op'.type.mutatesRow = true) : rowID op'.current ≠ rowID op.current := by
  rw [hplan, filter_append, map_append] at hnd
  have hdis := (nodup_append.1 hnd).2.2
  exact hdis _ (mem_map.2 ⟨op', mem_filter.2 ⟨hop', hm'⟩, rfl⟩) _
    (mem_map.2 ⟨op, mem_filter.2 ⟨mem_cons_self, hm⟩, rfl⟩)

/-- **The run of the loop**: what holds of every request sent from a state with the invariant
holds of every request sent. -/
theorem applyLoop_sent {plan : List Operation} {P : Sent → Prop}
    (hrow : ∀ op ∈ plan, op.type.mutatesRow = true → op.current ∈ table)
    (hnd : ((plan.filter fun op => op.type.mutatesRow).map fun op => rowID op.current).Nodup)
    (hsent : ∀ done op rest st (turn : Turn), plan = done ++ op :: rest → Progress table done st →
      (isCleanupOperation op.type = true → op.current.mutationGroupKey ∉ st.failedPrerequisiteGroups) →
        ∀ s ∈ (applyOne cfg op turn st.device).sent, P s) (turn : ℕ → Turn) :
    ∀ rest done index st, plan = done ++ rest → Progress table done st → (∀ s ∈ st.sent, P s) →
      ∀ s ∈ (applyLoop cfg operationID false turn index rest st).sent, P s := by
  intro rest
  induction rest with
  | nil => intro done index st _ _ hP; exact hP
  | cons op rest ih =>
    intro done index st hplan h hP
    have hnext : plan = (done ++ [op]) ++ rest := by rw [hplan]; simp
    unfold applyLoop
    split
    · exact hP
    · split
      · rename_i ht
        exact ih _ _ _ hnext (h.skip (by simp [ht]) _ _) hP
      · simp only [false_eq_true, if_false]
        split
        · exact hP
        · split
          · -- a cleanup operation behind a failed prerequisite
            rename_i hblocked
            have hcl : isCleanupOperation op.type = true := (Bool.and_eq_true_iff.1 hblocked).1
            refine ih _ _ _ hnext (h.skip ?_ _ _) hP
            rintro (ht | ht) <;> rw [ht] at hcl <;> simp [isCleanupOperation] at hcl
          · rename_i hfree
            refine ih _ _ _ hnext (h.record ?_ ?_ (turn index)) ?_
            · exact hrow op (by rw [hplan]; simp)
            · exact fun hm op' hop' hm' => earlier_row_ne hnd hplan hm hop' hm'
            · intro s hs
              rw [record_sent] at hs
              rcases mem_append.1 hs with hs | hs
              · exact hP s hs
              · refine hsent done op rest st (turn index) hplan h (fun hcl => ?_) s hs
                simpa [hcl] using hfree

theorem applyLoop_dryRun (turn : ℕ → Turn) :
    ∀ ops index st, (applyLoop cfg operationID true turn index ops st).sent = st.sent := by
  intro ops
  induction ops with
  | nil => intro index st; rfl
  | cons op rest ih =>
    intro index st
    unfold applyLoop
    split
    · rfl
    · split
      · rw [ih]; rfl
      · rw [if_pos rfl, ih]; rfl

end

section

variable (hd : ∀ e ∈ desired, e.WellFormed) (hkeys : (desired.map Endpoint.key).Nodup) (ht : TableOK table)
include hd hkeys ht

/-- Where a name without a conflict is cleaned up, every desired endpoint of the name has a
row that is its record and that the plan leaves alone, or an update or replacement. -/
theorem cleanup_covered (hop : op ∈ buildWithCleanupScope rt desired table ownerID cleanup allowed)
    (hcl : isCleanupOperation op.type = true)
    (hconf : ∀ op' ∈ buildWithCleanupScope rt desired table ownerID cleanup allowed,
      op'.type = .conflict → op'.group ≠ op.current.mutationGroupKey) (he : e ∈ desired)
    (hg : e.mutationGroupKey = op.current.mutationGroupKey) :
    (∃ c ∈ table, c.equalRecord e = true ∧
      ∀ op' ∈ buildWithCleanupScope rt desired table ownerID cleanup allowed,
        op'.type.mutatesRow = true → op'.current ≠ c) ∨
    ∃ op' ∈ buildWithCleanupScope rt desired table ownerID cleanup allowed,
      (op'.type = .update ∨ op'.type = .replace) ∧ op'.desired = e := by
  have htype : op.type = .delete ∨ op.type = .deactivate := by
    cases h : op.type <;> simp [h, isCleanupOperation] at hcl ⊢
  have hm : op.type.mutatesRow = true := by rcases htype with h | h <;> rw [h] <;> rfl
  have hgroup : op.group = e.mutationGroupKey := by rw [hg]; exact (plan_row hd ht.wf hop hm).2.1.symm
  have heD := mem_desiredOf_self hd hkeys he
  have hname := nameOK hd ht e.mutationGroupKey
  have hopG := (mem_plan hd ht.wf).1 hop
  rw [hgroup] at hopG
  have hmem : ∀ op' ∈ groupPlan ownerID cleanup allowed (desiredOf desired e.mutationGroupKey)
      (rowsOf table e.mutationGroupKey), op' ∈ buildWithCleanupScope rt desired table ownerID cleanup allowed ∧
        op'.group = op.current.mutationGroupKey := by
    intro op' hop'
    rw [← hg]
    exact (mem_plan_group hd ht.wf).2 hop'
  obtain ⟨hn, hcreated, -⟩ := groupPlan_cleanup hopG htype
  rcases @record_cases _ _ ownerID cleanup allowed _ _ hname heD with
    ⟨op', hplan, hc, -⟩ | ⟨-, ⟨op', hop', hc, -⟩, -⟩ | ⟨-, -, op', hop', hpub, hdes⟩ | ⟨-, -, kept, hk, heq⟩
  · rw [hplan, mem_singleton] at hopG
    subst hopG
    rcases htype with h | h <;> rw [h] at hc <;> simp at hc
  · obtain ⟨h1, h2⟩ := hmem op' hop'
    exact absurd h2 (hconf op' h1 hc)
  · -- the operation that publishes the endpoint is no create: cleanup waits for those
    right
    refine ⟨op', (hmem op' hop').1, ?_, hdes⟩
    cases h : op'.type <;> simp [h, OperationType.publishes] at hpub ⊢
    have hmissing := (groupPlan_create hop' h).2
    rw [hcreated] at hmissing
    simp at hmissing
  · left
    obtain ⟨hkC, -⟩ := head_copies hk
    refine ⟨kept, (mem_rowsOf.1 hkC).1, heq, ?_⟩
    intro op' hop' hm' hcur
    have hrow := plan_row hd ht.wf hop' hm'
    have hg' : op'.group = e.mutationGroupKey := by
      rw [← hrow.2.1, hcur]; exact (mem_rowsOf.1 hkC).2
    have hopG' := (mem_plan hd ht.wf).1 hop'
    rw [hg'] at hopG'
    exact equal_untouched hname hn heD hk heq hopG' hcur

omit hkeys in
theorem plan_rowIDs_nodup (hids : (table.map rowID).Nodup) :
    (((buildWithCleanupScope rt desired table ownerID cleanup allowed).filter fun op => op.type.mutatesRow).map
      fun op => rowID op.current).Nodup := by
  have hnd := @plan_current_nodup rt _ _ ownerID cleanup allowed hd ht
  have hmap : (fun op : Operation => rowID op.current) = rowID ∘ Operation.current := rfl
  rw [hmap, ← map_map]
  refine hnd.map_on fun a ha b hb hab => ?_
  obtain ⟨opA, hA, rfl⟩ := mem_map.1 ha
  obtain ⟨opB, hB, rfl⟩ := mem_map.1 hb
  obtain ⟨hA1, hA2⟩ := mem_filter.1 hA
  obtain ⟨hB1, hB2⟩ := mem_filter.1 hB
  exact inj_on_of_nodup_map hids (plan_row hd ht.wf hA1 hA2).1 (plan_row hd ht.wf hB1 hB2).1 hab

/-- When the loop comes to a cleanup operation whose name is not blocked, every desired
endpoint of the name has its record in another row of the device. -/
theorem Progress.holds {done rest : List Operation} {st : ApplyState} (hids : (table.map rowID).Nodup)
    (h : Progress table done st)
    (hplan : buildWithCleanupScope rt desired table ownerID cleanup allowed = done ++ op :: rest)
    (hcl : isCleanupOperation op.type = true) (hfree : op.current.mutationGroupKey ∉ st.failedPrerequisiteGroups)
    (hconf : ∀ op' ∈ buildWithCleanupScope rt desired table ownerID cleanup allowed,
      op'.type = .conflict → op'.group ≠ op.current.mutationGroupKey) (he : e ∈ desired)
    (hg : e.mutationGroupKey = op.current.mutationGroupKey) :
    ∃ r ∈ st.device, rowID op.current ≠ rowID r ∧ r.equalRecord e = true := by
  have hop : op ∈ buildWithCleanupScope rt desired table ownerID cleanup allowed := by rw [hplan]; simp
  have hm : op.type.mutatesRow = true := by
    cases h : op.type <;> simp [h, isCleanupOperation] at hcl <;> rfl
  -- rows with the same ID are the same row
  have hinj : ∀ c ∈ table, ∀ op' ∈ buildWithCleanupScope rt desired table ownerID cleanup allowed,
      op'.type.mutatesRow = true → op'.current ≠ c → rowID op'.current ≠ rowID c := by
    intro c hc op' hop' hm' hne hid
    exact hne (inj_on_of_nodup_map hids (plan_row hd ht.wf hop' hm').1 hc hid)
  rcases cleanup_covered hd hkeys ht hop hcl hconf he hg with ⟨c, hc, heq, huntouched⟩ | ⟨op', hop', ht', hdes⟩
  · refine ⟨c, h.kept c hc fun op' hop' hm' => ?_, hinj c hc op hop hm (huntouched op hop hm), heq⟩
    have hmem : op' ∈ buildWithCleanupScope rt desired table ownerID cleanup allowed := by rw [hplan]; simp [hop']
    exact hinj c hc op' hmem hm' (huntouched op' hmem hm')
  · -- the update or replacement stands before every cleanup operation
    have hrank : operationPhaseRank op'.type < operationPhaseRank op.type := by
      rcases ht' with h' | h' <;> cases h : op.type <;> simp [h, isCleanupOperation] at hcl <;>
        rw [h'] <;> decide
    have hdone : op' ∈ done := by
      have hsorted := plan_phases rt desired table ownerID cleanup allowed
      rw [hplan] at hsorted hop'
      have hlater := (pairwise_cons.1 (pairwise_append.1 hsorted).2.1).1
      rcases mem_append.1 hop' with hop' | hop'
      · exact hop'
      · rcases mem_cons.1 hop' with rfl | hop'
        · omega
        · have := hlater op' hop'
          omega
    obtain ⟨r, hr, hid, heq⟩ := h.written op' hdone ht' (by rw [hdes, hg]; exact hfree)
    refine ⟨r, hr, ?_, by rw [← hdes]; exact heq⟩
    rw [hid]
    exact (earlier_row_ne (plan_rowIDs_nodup hd ht hids) hplan hm hdone
      (isCleanupPrerequisite_of_written ht').2).symm

end

/-- **Make before break.** Whenever a DELETE or a deactivating PUT is sent for a row of a name
without a conflict, the device holds the record of every desired endpoint of that name, and
still does when the request has taken effect. -/
theorem make_before_break (rt : Runtime) (desired table : List Endpoint) (ownerID : String)
    (cleanup : CleanupPolicy) (allowed : Endpoint → Bool) (hd : ∀ e ∈ desired, e.WellFormed)
    (hkeys : (desired.map Endpoint.key).Nodup) (hrows : ∀ c ∈ table, c.WellFormed)
    (hids : (table.map rowID).Nodup) (hnonBlank : ∀ c ∈ table, rowID c ≠ "")
    (cfg : ClientConfig) (operationID : Operation → String) (dryRun : Bool) (turn : ℕ → Turn) :
    let plan := buildWithCleanupScope rt desired table ownerID cleanup allowed
    ∀ s ∈ (applyWithResults cfg operationID dryRun plan turn table).sent,
      isCleanupOperation s.operation.type = true →
      (∀ op ∈ plan, op.type = .conflict → op.group ≠ s.operation.current.mutationGroupKey) →
      ∀ e ∈ desired, e.mutationGroupKey = s.operation.current.mutationGroupKey →
        Holds s.device e ∧ Holds (s.request.perform s.newID s.device) e := by
  intro plan
  have ht : TableOK table := by
    refine ⟨hrows, List.Nodup.of_map trimSpace ?_, fun c hc => ?_⟩
    · rw [map_map]; exact hids
    · simpa [hasProviderID, rowID] using hnonBlank c hc
  unfold applyWithResults
  cases dryRun with
  | true =>
    rw [applyLoop_dryRun]
    simp
  | false =>
    have hrow : ∀ op ∈ plan, op.type.mutatesRow = true → op.current ∈ table :=
      fun op hop hm => (plan_row hd ht.wf hop hm).1
    refine applyLoop_sent hrow (plan_rowIDs_nodup hd ht hids) ?_ turn plan [] 0 _ rfl ?_ ?_
    · intro done op rest st turn hplan h hfree s hs hcl hconf e he hg
      rw [applyOne_operation hs] at hcl hconf hg
      obtain ⟨r, hr, hne, heq⟩ := h.holds hd hkeys ht hids hplan hcl (hfree hcl) hconf he hg
      have hm : op.type.mutatesRow = true := by
        cases h : op.type <;> simp [h, isCleanupOperation] at hcl <;> rfl
      obtain ⟨h1, h2⟩ := applyOne_sent hs hm hr hne
      exact ⟨⟨r, h1, heq⟩, ⟨r, h2, heq⟩⟩
    · exact ⟨fun c hc _ => hc, by simp⟩
    · simp

/-- An update and the cleanup of a stale row of the same name, where the first PUT takes effect
but its response is lost. -/
theorem make_before_break_update :
    let e : Endpoint :=
      { dnsName := "www.lan", recordType := "A", targets := ["192.0.2.1"], ttl := 60, zone := "lan" }
    let rows := [{ e with ttl := 300, ownerID := "me", providerID := "1" },
      { e with targets := ["192.0.2.9"], ownerID := "me", providerID := "2" }]
    let plan := buildWithCleanupScope .plain [e] rows "me" .delete fun _ => true
    let turn : ℕ → Turn := fun _ => { exchange := fun n => if n = 1 then .failure true true else .success }
    let sent := (applyWithResults ⟨"lan", 1⟩ (fun _ => "") false plan turn rows).sent
    (sent.map fun s => (s.operation.type, s.operation.current.providerID)) =
        [(.update, "1"), (.update, "1"), (.delete, "2"), (.delete, "2")] ∧
      ∀ s ∈ sent, isCleanupOperation s.operation.type = true →
        (∀ op ∈ plan, op.type = .conflict → op.group ≠ s.operation.current.mutationGroupKey) →
        ∀ f ∈ [e], f.mutationGroupKey = s.operation.current.mutationGroupKey →
          Holds s.device f ∧ Holds (s.request.perform s.newID s.device) f := by
  intro e rows plan turn sent
  exact ⟨by decide +kernel, make_before_break .plain [e] rows "me" .delete (fun _ => true) (by decide +kernel)
    (by decide +kernel) (by decide +kernel) (by decide +kernel) (by decide +kernel) ⟨"lan", 1⟩ (fun _ => "")
    false turn⟩

/-- IDs that differ in white space only: the DELETE for the stale row `" 5"` reaches the row `"5"`,
which holds the desired record. -/
theorem make_before_break_spaced_ids :
    let e : Endpoint := { dnsName := "www.lan", recordType := "A", targets := ["192.0.2.1"], zone := "lan" }
    let rows := [{ e with ownerID := "me", providerID := "5" },
      { e with targets := ["192.0.2.9"], ownerID := "me", providerID := " 5" }]
    let plan := buildWithCleanupScope .plain [e] rows "me" .delete fun _ => true
    (∀ f ∈ [e], f.WellFormed) ∧ ([e].map Endpoint.key).Nodup ∧ TableOK rows ∧
      ∃ s ∈ (applyWithResults ⟨"lan", 0⟩ (fun _ => "") false plan (fun _ => {}) rows).sent,
        isCleanupOperation s.operation.type = true ∧
          (∀ op ∈ plan, op.type = .conflict → op.group ≠ s.operation.current.mutationGroupKey) ∧
          e.mutationGroupKey = s.operation.current.mutationGroupKey ∧
          Holds s.device e ∧ ¬Holds (s.request.perform s.newID s.device) e := by
  decide +kernel

end FortigateDns
