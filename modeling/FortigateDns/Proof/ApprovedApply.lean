import FortigateDns.Proof.PlanSteps

/-!
# Applying only what was approved

`applyPrepared` persists the plan of its operations, asks for the approval of what
`PersistCurrent` returns, and consumes that approval right before the provider is called. The
plan that is returned may be one that somebody else has stored under the name of the plan. Where
the names of stored plans tell their target and hash, an apply that mutates follows a write that
consumed the approval of exactly its operations.
-/

namespace FortigateDns

open Go Conc Store List

variable {o : ChangePlan} {l : List PlanEvent}

/-- A name that `PersistCurrent` may choose for a plan. -/
def PlanName (targetName hash name : String) : Prop :=
  name = planObjectName targetName hash ∨ ∃ now, name = recurringPlanObjectName targetName hash now

/-- The stored plans with such a name are plans of that target and hash. -/
def NamesAgree (targetName hash : String) (s : PlanStore) : Prop :=
  ∀ o ∈ s.objects, PlanName targetName hash o.name →
    o.spec.plan.targetRef = targetName ∧ o.spec.plan.planHash = hash

/-- A plan of the target and hash that was stored when some call was answered. -/
def Known (targetName hash : String) (o : ChangePlan) (l : List PlanEvent) : Prop :=
  o.spec.plan.targetRef = targetName ∧ o.spec.plan.planHash = hash ∧ ∃ w ∈ l, o ∈ w.after.objects

theorem Known.append {targetName hash : String} (h : Known targetName hash o l) (ev : PlanEvent) :
    Known targetName hash o (l ++ [ev]) := by
  obtain ⟨htarget, hhash, w, hw, ho⟩ := h
  exact ⟨htarget, hhash, w, mem_append_left _ hw, ho⟩

/-- The plans of a target, all of which were stored when some call was answered. -/
def Listed (targetName : String) (items : List ChangePlan) (l : List PlanEvent) : Prop :=
  ∀ o ∈ items, o.spec.plan.targetRef = targetName ∧ ∃ w ∈ l, o ∈ w.after.objects

section

variable {P : PlanStore → Prop} {env : PlanStore → PlanStore → Prop} {Φ : List PlanEvent → PlanEvent → Prop}
variable {α β ε : Type} {s : PlanLog} {dr : DocumentRuntime} {unmarshal : List Char → Option Document}
variable {targetName hash : String}

/-- What is known stays known. -/
theorem safe_known {x : Act PlanCall PlanAnswer ε α} {Q : α → PlanLog → Prop}
    (hs : Known targetName hash o s.history) (h : Safe (planContract P env Φ) x.run (Ensures Q) s) :
    Safe (planContract P env Φ) x.run (Ensures fun a s => Q a s ∧ Known targetName hash o s.history) s :=
  safe_remember (K := Known targetName hash o) (fun _ ev h => h.append ev) hs h

variable (hΦ : ∀ h ev, ev.call.Internal → Φ h ev)
include hΦ

theorem safe_internal {x : Act PlanCall PlanAnswer ε α} (hx : x.run.Calls PlanCall.Internal) :
    Safe (planContract P env Φ) x.run (Ensures fun _ _ => True) s :=
  safe_action hx fun _ _ _ _ he _ => hΦ _ _ he

/-- A program that only settles plans. -/
theorem safe_settling {x : Act PlanCall PlanAnswer ε α} (hx : x.run.Calls PlanCall.Settling) :
    Safe (planContract P env Φ) x.run (Ensures fun _ _ => True) s :=
  safe_internal hΦ (hx.mono settling_internal)

theorem listTarget_listed (s : PlanLog) : Safe (planContract P env Φ) (ChangePlanStore.listTarget targetName).run
    (Ensures fun items s => Listed targetName items s.history) s := by
  unfold ChangePlanStore.listTarget
  refine internal_then hΦ trivial (stable_const True) trivial fun s' r t _ _ hexec => ?_
  obtain ⟨rfl, hr⟩ := hexec
  refine stored_then fun items hitems => ?_
  refine safe_pure (log_stable (Listed targetName _)) fun o ho => ?_
  obtain ⟨ho, htarget⟩ := mem_filter.1 ho
  have hperm : items.Perm s'.state.objects := by
    rcases hr with ⟨listed, hperm, hr⟩ | hr
    · obtain rfl := Except.ok.inj (hitems.symm.trans hr)
      exact hperm
    · rw [hr] at hitems
      simp at hitems
  exact ⟨by simpa using htarget, _, mem_append_right _ (mem_singleton_self _), hperm.mem_iff.1 ho⟩

theorem chooseName_name (items : List ChangePlan) (s : PlanLog) :
    Safe (planContract P env Φ) (ChangePlanStore.chooseName targetName hash items).run
      (Ensures fun name _ => PlanName targetName hash name) s := by
  unfold ChangePlanStore.chooseName
  split
  · refine internal_then hΦ trivial (stable_const True) trivial fun s' now t _ _ _ => ?_
    exact safe_pure (stable_const _) (Or.inr ⟨now, rfl⟩)
  · exact safe_pure (stable_const _) (Or.inl rfl)

variable (henv : ∀ s t, env s t → Later s t)
include henv

/-- A phase that is written without a check. -/
theorem updatePhase_named {name : String} {phase : PlanPhase} {outcomes : List OperationOutcome}
    (hphase : terminalPlanPhase phase = false) (s : PlanLog) :
    Safe (planContract P env Φ) (ChangePlanStore.updatePhase dr name phase outcomes).run
      (Ensures fun n s => Wrote P (fun _ _ => True) name phase n s.history) s := by
  refine updatePhase_wrote hΦ henv hphase (fun o h s hh hseen => ?_) s
  exact safe_pure (afterCheck_stable henv _ o h) ⟨[], by rw [hh, append_nil], trivial, hseen⟩

variable (hP : ∀ s, P s → NamesAgree targetName hash s)
include hP

/-- A plan that was created and then found under its name. -/
theorem createPlan_known {object : ChangePlan} {retention : Int} (hname : PlanName targetName hash object.name)
    (s : PlanLog) : Safe (planContract P env Φ) (ChangePlanStore.createPlan dr object targetName retention).run
      (Ensures fun o s => Known targetName hash o s.history) s := by
  unfold ChangePlanStore.createPlan
  refine safe_seq (safe_settling hΦ (staleSuperseded_settling _ _)) fun _ t _ => ?_
  refine internal_then hΦ trivial (stable_const True) trivial fun s' r t _ _ hexec => ?_
  refine stored_then fun created hcreated => ?_
  subst hcreated
  have hcreated : created.name = object.name := by
    obtain ⟨now, hexec⟩ := hexec
    have hput := Answered.ok hexec
    rcases create_cases s'.state
      { object with spec := { object.spec with generation := 1, creationTimestamp := now } } {}
      with ⟨e, herr⟩ | ⟨n, t', hok, -, hn, -⟩
    · rw [herr] at hput
      simp at hput
    · rw [hok] at hput
      rw [← Except.ok.inj (Prod.mk.inj hput).1, hn]
  refine safe_seq (updatePhase_named hΦ henv rfl _) fun n t hn => ?_
  have hknown : Known targetName hash n t.history := by
    obtain ⟨pre, o, s₁, checks, status, s₂, t', hhist, honame, -, -, hP₂, hold, hnew, -, -, hspec, -⟩ := hn.events
    have hagree := hP s₂ hP₂ o hold (by rw [honame, hcreated]; exact hname)
    have hlast : (⟨.updateStatus { o with status := status }, s₂, .ok n, t'⟩ : PlanEvent) ∈ t.history := by
      rw [hhist]
      exact mem_append_right _ (mem_singleton_self _)
    exact ⟨by rw [hspec]; exact hagree.1, by rw [hspec]; exact hagree.2, _, hlast, hnew⟩
  refine safe_seq (safe_known hknown (safe_settling hΦ ((pruneHistory_keeping _ _).mono keeping_settling)))
    fun _ t ht => ?_
  exact safe_pure (log_stable (Known targetName hash n)) ht.2

/-- **What `PersistCurrent` returns** is a plan of the target and hash that was stored. -/
theorem persistCurrent_known {objectNamespace : String} {document : Document} {expiresAt : Option Nat}
    {retention : Int} (htarget : document.target.name = targetName) (hid : document.id dr = .ok hash)
    (s : PlanLog) :
    Safe (planContract P env Φ)
      (ChangePlanStore.persistCurrent dr unmarshal objectNamespace document expiresAt retention).run
      (Ensures fun o s => Known targetName hash o s.history) s := by
  unfold ChangePlanStore.persistCurrent
  rw [htarget]
  refine safe_seq (listTarget_listed hΦ s) fun items t hitems => ?_
  refine verified_then fun wanted hwanted => ?_
  rw [hid] at hwanted
  obtain rfl : hash = wanted := Except.ok.inj hwanted
  split
  · rename_i candidate hfind
    -- a plan of the target that the list has found
    refine verified_then fun _ _ => ?_
    obtain ⟨href, w, hw, hmem⟩ := hitems candidate (mem_of_find?_eq_some hfind)
    have hhash : candidate.spec.plan.planHash = hash := by
      have hfound := find?_some hfind
      simp only [Bool.and_eq_true, beq_iff_eq] at hfound
      exact hfound.1
    exact safe_pure (log_stable (Known targetName hash candidate)) ⟨href, hhash, w, hw, hmem⟩
  · refine safe_seq (chooseName_name hΦ items t) fun name t hname => ?_
    refine verified_then fun object hobject => ?_
    have hobject := (newChangePlanObject_ok hobject).1
    refine internal_then hΦ trivial (stable_const True) trivial fun s' r t _ hP' hexec => ?_
    obtain ⟨rfl, hr⟩ := hexec
    cases r with
    | ok existing =>
      -- a plan with the name, which the list has not shown
      have hget : s'.state.get name = .ok existing := by
        rcases hr with hr | hr
        · exact hr.symm
        · simp at hr
      obtain ⟨hmem, hexname⟩ := get_ok hget
      obtain ⟨href, hhash⟩ := hP _ hP' existing hmem (by rw [hexname]; exact hname)
      refine verified_then fun _ _ => ?_
      split
      · exact safe_pure (log_stable (Known targetName hash existing))
          ⟨href, hhash, _, mem_append_right _ (mem_singleton_self _), hmem⟩
      · exact safe_throw
    | error err =>
      cases err with
      | notFound => exact createPlan_known hΦ henv hP (by rw [hobject]; exact hname) _
      | _ => exact safe_throw

end

section

variable {α : Type} {p q : Prog PlanCall PlanAnswer α} {s t : PlanStore} {τ : List PlanEvent}

theorem run_spec (hrun : Run planExec (PlanEdit SpecImmutable) p s τ q t) (ho : SpecOf o s) :
    ∀ w ∈ τ, ∀ x ∈ w.after.objects, x.uid = o.uid → x.spec.plan = o.spec.plan := by
  induction hrun with
  | stop p s => simp
  | env henv _ ih => exact ih (ho.descends (planEdit_descends henv))
  | call hexec _ ih =>
    have hafter := ho.descends (planExec_descends hexec)
    intro w hw
    rcases mem_cons.1 hw with rfl | hw
    · exact hafter.2
    · exact ih hafter w hw

/-- **One UID stands for one spec** in a run. -/
theorem run_coherent (hrun : Run planExec (PlanEdit SpecImmutable) p s τ q t) :
    ∀ w ∈ τ, ∀ w' ∈ τ, ∀ o ∈ w.after.objects, ∀ o' ∈ w'.after.objects, o.uid = o'.uid →
      o.spec.plan = o'.spec.plan := by
  induction hrun with
  | stop p s => simp
  | env _ _ ih => exact ih
  | call hexec hrest ih =>
    intro w hw w' hw' o ho o' ho' huid
    rcases mem_cons.1 hw with rfl | hw
    · rcases mem_cons.1 hw' with rfl | hw'
      · rw [eq_of_uid ho ho' huid]
      · exact (run_spec hrest (specOf_mem ho) w' hw' o' ho' huid.symm).symm
    · rcases mem_cons.1 hw' with rfl | hw'
      · exact run_spec hrest (specOf_mem ho') w hw o ho huid
      · exact ih w hw w' hw' o ho o' ho' huid

end

/-- A write to the phase Applying on a plan that is approved by its own hash. -/
structure ApplyingWrite (o : ChangePlan) (w : PlanEvent) : Prop where
  write : ∃ status s n t, w = ⟨.updateStatus { o with status := status }, s, .ok n, t⟩ ∧
    status.phase = .applying ∧
    o ∈ s.objects ∧ n ∈ t.objects ∧ n.uid = o.uid ∧ n.spec = o.spec ∧ n.status = status
  approval : o.spec.approval = o.spec.plan.planHash

/-- The approval of `plan` was consumed. -/
def Consumed (plan : ChangePlan) (l : List PlanEvent) : Prop := ∃ w ∈ l, ∃ o, ApplyingWrite o w ∧ o.uid = plan.uid

/-- **The write that authorizes**: it was committed on a plan of the target and hash that was
approved by this very hash. -/
def AuthorizingWrite (targetName hash : String) (w : PlanEvent) : Prop :=
  ∃ o, ApplyingWrite o w ∧ o.spec.plan.targetRef = targetName ∧ o.spec.plan.planHash = hash ∧
    o.spec.approval = hash

/-- The approval of a stored plan with the hash of `plan` was consumed, if `plan` mutates at all. -/
def PlanAuthorized (dr : DocumentRuntime) (plan : PreparedPlan) (l : List PlanEvent) : Prop :=
  hasActionableOperation plan.operations = true → ∃ hash, plan.document.id dr = .ok hash ∧
    ∃ persisted, Known plan.document.target.name hash persisted l ∧ Consumed persisted l

theorem Consumed.append {plan : ChangePlan} (h : Consumed plan l) (ev : PlanEvent) :
    Consumed plan (l ++ [ev]) := by
  obtain ⟨w, hw, hwrite⟩ := h
  exact ⟨w, mem_append_left _ hw, hwrite⟩

theorem PlanAuthorized.append {dr : DocumentRuntime} {plan : PreparedPlan} (h : PlanAuthorized dr plan l)
    (ev : PlanEvent) : PlanAuthorized dr plan (l ++ [ev]) := by
  intro hactionable
  obtain ⟨hash, hid, persisted, hknown, hconsumed⟩ := h hactionable
  exact ⟨hash, hid, persisted, hknown.append ev, hconsumed.append ev⟩

/-- What is asked of an event: what the provider is asked to apply is the plan, and authorized. -/
def FollowsApproval (dr : DocumentRuntime) (plan : PreparedPlan) (l : List PlanEvent) (ev : PlanEvent) : Prop :=
  ∀ operations dryRun, ev.call = .apply operations dryRun → operations = plan.operations ∧
    PlanAuthorized dr plan l

theorem followsApproval_internal {dr : DocumentRuntime} {plan : PreparedPlan} (l : List PlanEvent)
    (ev : PlanEvent) (h : ev.call.Internal) : FollowsApproval dr plan l ev := by
  intro operations dryRun hcall
  rw [hcall] at h
  exact h.elim

theorem consumed_of_wrote {P : PlanStore → Prop} {persisted n : ChangePlan}
    (h : Wrote P (Consumable persisted) persisted.name .applying n l) : Consumed persisted l := by
  obtain ⟨pre, o, s₁, checks, status, s₂, t, hl, -, hV, hphase, -, hold, hnew, huid, -, hspec, hstatus⟩ :=
    h.events
  refine ⟨⟨.updateStatus { o with status := status }, s₂, .ok n, t⟩, ?_, o, ⟨?_, hV.checked.approval⟩, hV.uid⟩
  · rw [hl]
    exact mem_append_right _ (mem_singleton_self _)
  · exact ⟨status, s₂, n, t, rfl, hphase, hold, hnew, huid, hspec, hstatus⟩

section

variable {env : PlanStore → PlanStore → Prop} {P : PlanStore → Prop} {s : PlanLog} {dr : DocumentRuntime}
variable {unmarshal : List Char → Option Document} {cfg : ApplyConfig} {plan : PreparedPlan} {hash : String}
variable (henv : ∀ s t, env s t → Later s t)
variable (hP : ∀ s, P s → ∀ hash, plan.document.id dr = .ok hash → NamesAgree plan.document.target.name hash s)
variable (hstore : cfg.hasStore = true) (happroval : cfg.approvalRequired = true)

include henv hP hstore happroval

theorem persistPlan_known (hid : plan.document.id dr = .ok hash) (s : PlanLog) :
    Safe (planContract P env (FollowsApproval dr plan)) (Runner.persistPlan dr unmarshal cfg plan).run
      (Ensures fun persisted s => ∃ o, persisted = some o ∧
        Known plan.document.target.name hash o s.history) s := by
  have hΦ := @followsApproval_internal dr plan
  unfold Runner.persistPlan
  rw [if_pos hstore]
  refine safe_seq (orFail_safe (fun o => log_stable (Known plan.document.target.name hash o))
    (persistCurrent_known hΦ henv (fun s hs => hP s hs hash hid) rfl hid s)) fun persisted t hknown => ?_
  rw [if_pos happroval]
  refine safe_seq (safe_known hknown
    (safe_settling hΦ (calls_orFail (requireExactApproval_settling persisted)))) fun _ t ht => ?_
  refine safe_seq (safe_known ht.2 (safe_internal hΦ
    (calls_orFail (updateApprovedPhase_internal persisted .approved)))) fun _ t ht => ?_
  exact safe_pure (log_stable fun l => ∃ o, some persisted = some o ∧ Known plan.document.target.name hash o l)
    ⟨persisted, rfl, ht.2⟩

omit hP hstore in
theorem beginApply_consumed (persisted : ChangePlan) (s : PlanLog) :
    Safe (planContract P env (FollowsApproval dr plan)) (Runner.beginApply dr cfg (some persisted)).run
      (Ensures fun _ s => Consumed persisted s.history) s := by
  unfold Runner.beginApply
  simp only [if_pos happroval]
  refine safe_seq (orFail_safe (fun n => log_stable fun l =>
    Wrote P (Consumable persisted) persisted.name .applying n l)
    (updateApprovedPhase_wrote followsApproval_internal henv rfl s)) fun n t hn => ?_
  exact safe_pure (log_stable (Consumed persisted)) (consumed_of_wrote hn)

/-- **The authorization** of a plan that mutates. -/
theorem authorize_consumed (s : PlanLog) :
    Safe (planContract P env (FollowsApproval dr plan)) (Runner.authorize dr unmarshal cfg plan).run
      (Ensures fun _ s => PlanAuthorized dr plan s.history) s := by
  have hΦ := @followsApproval_internal dr plan
  unfold Runner.authorize
  have hplanID : Safe (planContract P env (FollowsApproval dr plan))
      (verified (ofDocument (plan.document.id dr))).run
        (Ensures fun hash _ => plan.document.id dr = .ok hash) s := by
    cases hid : plan.document.id dr with
    | error err => exact safe_throw
    | ok hash => exact safe_pure (stable_const _) rfl
  refine safe_seq (orFail_safe (fun _ => stable_const _) hplanID) fun hash t hid => ?_
  refine safe_seq (safe_settling hΦ (calls_orFail (writePlanFile_settling _))) fun _ t _ => ?_
  refine safe_seq (safe_settling hΦ (calls_orFail (checkApprovedHash_settling _))) fun _ t _ => ?_
  split
  · refine safe_seq (persistPlan_known henv hP hstore happroval hid t) fun persisted t hpersisted => ?_
    obtain ⟨o, rfl, hknown⟩ := hpersisted
    refine safe_seq (safe_known hknown
      (safe_settling hΦ (revalidate_settling _ _))) fun _ t ht => ?_
    refine safe_seq (safe_known ht.2
      (beginApply_consumed henv happroval o t)) fun _ t ht => ?_
    exact safe_pure (log_stable (PlanAuthorized dr plan)) fun _ => ⟨hash, hid, o, ht.2, ht.1⟩
  · rename_i hnot
    refine safe_seq (safe_settling hΦ (calls_orFail (supersedeAll_settling _))) fun _ t _ => ?_
    exact safe_pure (log_stable (PlanAuthorized dr plan)) fun h => absurd h hnot

omit henv hP hstore happroval in
/-- The apply, once it is authorized. -/
theorem execute_follows {name : Option String} {planApproved : Bool} (hauth : PlanAuthorized dr plan s.history) :
    Safe (planContract P env (FollowsApproval dr plan))
      (Runner.execute dr cfg plan.operations name planApproved).run
      (Ensures fun _ _ => True) s := by
  have hΦ := @followsApproval_internal dr plan
  unfold Runner.execute
  refine safe_seq (safe_remember (K := PlanAuthorized dr plan) (fun _ ev h => h.append ev) hauth
    (safe_settling hΦ (beforeMutation_settling name))) fun _ t ht => ?_
  refine safe_then_call (log_stable (PlanAuthorized dr plan)) ht.2 fun s' hs' answer t _ => ⟨?_, ?_⟩
  · intro operations dryRun hcall
    obtain ⟨rfl, -⟩ := PlanCall.apply.inj hcall
    exact ⟨rfl, hs'⟩
  · exact safe_settling hΦ (calls_seq
      (calls_orFail (recordTerminal_settling _ (terminalPhase_terminal _ _ _) _ _)) fun _ =>
        calls_ite calls_throw calls_pure)

theorem applyPrepared_follows (hrequested : plan.planRequested = true) (s : PlanLog) :
    Safe (planContract P env (FollowsApproval dr plan)) (Runner.applyPrepared dr unmarshal cfg plan).run
      (Ensures fun _ _ => True) s := by
  unfold Runner.applyPrepared
  refine internal_then followsApproval_internal trivial (stable_const True) trivial fun s' canceled t _ _ _ => ?_
  split
  · exact safe_throw
  exact safe_seq (authorize_consumed henv hP hstore happroval _) fun name t hauth => execute_follows hauth

end

/-- The apply of a prepared plan. -/
theorem run_authorized {dr : DocumentRuntime} {unmarshal : List Char → Option Document} {cfg : ApplyConfig}
    {plan : PreparedPlan} (hstore : cfg.hasStore = true) (happroval : cfg.approvalRequired = true)
    (hrequested : plan.planRequested = true) {s t : PlanStore} {τ : List PlanEvent}
    {q : Prog PlanCall PlanAnswer (Except ApplyFailure Bool)}
    (hrun : Run planExec (PlanEdit SpecImmutable) (Runner.applyPrepared dr unmarshal cfg plan).run s τ q t)
    (hnames : ∀ ev ∈ τ, ∀ hash, plan.document.id dr = .ok hash →
      NamesAgree plan.document.target.name hash ev.before)
    {pre post : List PlanEvent} {ev : PlanEvent} {operations : List Operation} {dryRun : Bool}
    (hτ : τ = pre ++ ev :: post) (hcall : ev.call = .apply operations dryRun)
    (hactionable : hasActionableOperation operations = true) :
    operations = plan.operations ∧ ∃ hash, plan.document.id dr = .ok hash ∧
      ∃ w ∈ pre, AuthorizingWrite plan.document.target.name hash w := by
  have hsafe : Safe (planContract
      (fun s => ∀ hash, plan.document.id dr = .ok hash → NamesAgree plan.document.target.name hash s)
      (PlanEdit SpecImmutable) (FollowsApproval dr plan)) (Runner.applyPrepared dr unmarshal cfg plan).run
      (Ensures fun _ _ => True) ⟨s, []⟩ :=
    applyPrepared_follows (fun _ _ h => h.later) (fun _ h => h) hstore happroval hrequested _
  obtain ⟨rfl, hauth⟩ := run_events hsafe (hrun.assume hnames) pre ev post hτ operations dryRun hcall
  obtain ⟨hash, hid, persisted, ⟨href, hhash, w₁, hw₁, hpersisted⟩, w₂, hw₂, o, hwrite, huid⟩ := hauth hactionable
  obtain ⟨status, s₂, n, t₂, rfl, -, -, hn, hnuid, hnspec, -⟩ := hwrite.write
  -- the plan that was written to is the one that was persisted
  have hmem : ∀ w ∈ pre, w ∈ τ := fun w hw => hτ ▸ mem_append_left _ hw
  have hspec : n.spec.plan = persisted.spec.plan :=
    run_coherent hrun _ (hmem _ hw₂) _ (hmem _ hw₁) n hn persisted hpersisted (hnuid.trans huid)
  rw [hnspec] at hspec
  refine ⟨rfl, hash, hid, _, hw₂, o, hwrite, by rw [hspec]; exact href, by rw [hspec]; exact hhash, ?_⟩
  rw [hwrite.approval, hspec]
  exact hhash

/-- **An apply is authorized by the approval of its own plan.** Whatever is stored, and whatever
others do within the rule that specs are immutable: if, at every call, the stored plans with a
name that belongs to the plan of the cycle are plans of its target with its hash, then an apply of
operations of which some mutate follows a committed write to the phase Applying, on a plan of the
target with the hash of exactly these operations that was approved by this hash. -/
theorem approved_apply (dr : DocumentRuntime) (unmarshal : List Char → Option Document) (cfg : ApplyConfig)
    (hstore : cfg.hasStore = true) (happroval : cfg.approvalRequired = true) (target : TargetIdentity)
    (preconditions : Preconditions) (planned : List Operation) (s t : PlanStore) (τ : List PlanEvent)
    (q : Prog PlanCall PlanAnswer (Except ApplyFailure Bool)) (hrun : Run planExec (PlanEdit SpecImmutable)
      (Runner.applyPrepared dr unmarshal cfg (preparePlan cfg target preconditions planned)).run s τ q t)
    (hnames : ∀ ev ∈ τ, ∀ hash, (oneShotDocument target preconditions planned).id dr = .ok hash →
      NamesAgree target.name hash ev.before) :
    ∀ pre ev post operations dryRun, τ = pre ++ ev :: post → ev.call = .apply operations dryRun →
      hasActionableOperation operations = true →
      ∃ hash, (oneShotDocument target preconditions operations).id dr = .ok hash ∧
        ∃ w ∈ pre, AuthorizingWrite target.name hash w := by
  intro pre ev post operations dryRun hτ hcall hactionable
  have hdocument : (preparePlan cfg target preconditions planned).document =
    oneShotDocument target preconditions planned := rfl
  have htarget : (oneShotDocument target preconditions planned).target = target := rfl
  have hrequested : (preparePlan cfg target preconditions planned).planRequested = true := by
    show cfg.planRequested = true
    unfold ApplyConfig.planRequested
    rw [hstore, Bool.or_true, Bool.true_or]
  obtain ⟨hplanned, hash, hid, w, hw, hwrite⟩ :=
    run_authorized hstore happroval hrequested hrun (by rw [hdocument, htarget]; exact hnames) hτ
      hcall hactionable
  obtain rfl : operations = planned := hplanned
  rw [hdocument] at hid hwrite
  rw [htarget] at hwrite
  exact ⟨hash, hid, w, hw, hwrite⟩

/-- Whether a call goes to the provider. -/
def PlanCall.isApply : PlanCall → Bool
  | .apply _ _ => true
  | _ => false

/-- The events before the first apply. -/
def beforeApply (τ : List PlanEvent) : List PlanEvent := τ.takeWhile fun ev => !ev.call.isApply

/-- What is applied first. -/
def firstApplied (τ : List PlanEvent) : Option (List Operation × Bool) :=
  match τ.dropWhile fun ev => !ev.call.isApply with
  | ⟨.apply operations dryRun, _, _, _⟩ :: _ => some (operations, dryRun)
  | _ => none

/-- The targets of the plans that are written to before the first apply. -/
def writtenTargets (τ : List PlanEvent) : List String :=
  (beforeApply τ).filterMap fun ev =>
    match ev.call with
    | .updateStatus object => some object.spec.plan.targetRef
    | _ => none

theorem split_firstApplied {τ : List PlanEvent} {operations : List Operation} {dryRun : Bool}
    (h : firstApplied τ = some (operations, dryRun)) :
    ∃ ev post, τ = beforeApply τ ++ ev :: post ∧ ev.call = .apply operations dryRun := by
  have hτ := takeWhile_append_dropWhile (p := fun ev : PlanEvent => !ev.call.isApply) (l := τ)
  unfold firstApplied at h
  split at h
  · rename_i hdrop
    obtain ⟨rfl, rfl⟩ := Prod.mk.inj (Option.some.inj h)
    exact ⟨_, _, by rw [← hdrop]; exact hτ.symm, rfl⟩
  · simp at h

theorem target_written {τ : List PlanEvent} {targetName hash : String} {w : PlanEvent} (hw : w ∈ beforeApply τ)
    (h : AuthorizingWrite targetName hash w) : targetName ∈ writtenTargets τ := by
  obtain ⟨o, hwrite, href, -⟩ := h
  obtain ⟨status, s, n, t, rfl, -⟩ := hwrite.write
  exact mem_filterMap.2 ⟨_, hw, by rw [← href]⟩

/-- The plan of one record to create, for a target. -/
def createApp : List Operation :=
  [{ type := .create
     desired :=
       { dnsName := "app.example.com", recordType := "A", targets := ["192.0.2.1"], zone := "example.com" } }]

/-- A target with the zone `example.com`. -/
def targetNamed (name : String) : TargetIdentity := { name := name, zone := "example.com" }

/-- A device listed at revision 7. -/
def revisionSeven : Preconditions := { provider := { revision := "7", stable := true, complete := true } }

/-- A plan that creates one record. -/
def createDocument (targetName : String) : Document :=
    oneShotDocument (targetNamed targetName) revisionSeven createApp

/-- The hash of that plan. -/
def createHash (targetName : String) : String := ((createDocument targetName).id .plain).toOption.getD ""

/-- A store that holds the plan of a target, approved, under the name of the plan of `edge`. -/
def approvedStore (targetName : String) : PlanStore :=
  planStoreOf ((newChangePlanObject .plain "system" (planObjectName "edge" (createHash "edge"))
    (createDocument targetName) none).toOption.toList.map fun o =>
      { o with spec := { o.spec with approval := o.spec.plan.planHash } })

/-- Decodes the plan of a target. -/
def decodeCreate (targetName : String) (text : List Char) : Option Document :=
  if (createDocument targetName).canonicalJSON .plain = .ok text then some (createDocument targetName) else none

/-- A runner that waits for approvals. -/
def gated : ApplyConfig := { approvalRequired := true, hasStore := true }

/-- A cycle of `edge` that creates the record, where the stored plan is one of `targetName`. -/
def edgeCycle (targetName : String) : ApplyAction Bool :=
  Runner.applyPrepared .plain (decodeCreate targetName) gated
    (preparePlan gated (targetNamed "edge") revisionSeven createApp)

/-- The calls of a cycle with that plan. -/
def edgeTrace (targetName : String) : List PlanEvent :=
  (runWith (planServe (createHash "edge")) (edgeCycle targetName).run (approvedStore targetName)).1

theorem createHash_edge : (createDocument "edge").id .plain = .ok (createHash "edge") := by
  have hvalid : ((createDocument "edge").canonicalJSON .plain).toOption.isSome = true := by decide +kernel
  unfold createHash Document.id
  cases hjson : (createDocument "edge").canonicalJSON .plain with
  | error err =>
    rw [hjson] at hvalid
    cases hvalid
  | ok json => rfl

/-- The plan of `edge` itself is stored: its approval authorizes the apply. -/
theorem approved_apply_own :
    ∃ pre ev post, edgeTrace "edge" = pre ++ ev :: post ∧ ev.call = .apply createApp false ∧
      ∃ w ∈ pre, AuthorizingWrite "edge" (createHash "edge") w := by
  obtain ⟨happlied, hown⟩ : firstApplied (edgeTrace "edge") = some (createApp, false) ∧
      ∀ ev ∈ edgeTrace "edge", ∀ o ∈ ev.before.objects,
        o.spec.plan.targetRef = "edge" ∧ o.spec.plan.planHash = createHash "edge" := by
    decide +kernel
  have hnames : ∀ ev ∈ edgeTrace "edge", ∀ hash, (createDocument "edge").id .plain = .ok hash →
      NamesAgree "edge" hash ev.before := by
    intro ev hev hash hid o ho _
    rw [createHash_edge] at hid
    rw [← Except.ok.inj hid]
    exact hown ev hev o ho
  obtain ⟨ev, post, hτ, hcall⟩ := split_firstApplied happlied
  obtain ⟨hash, hid, w, hw, hwrite⟩ := approved_apply .plain (decodeCreate "edge") gated rfl rfl
    (targetNamed "edge")
    revisionSeven createApp _ _ _ _ (planServe_run _ _ (edgeCycle "edge").run (approvedStore "edge"))
      hnames _ ev post
    createApp false hτ hcall rfl
  obtain rfl : createHash "edge" = hash := Except.ok.inj (createHash_edge.symm.trans hid)
  exact ⟨_, ev, post, hτ, hcall, w, hw, hwrite⟩

/-- **The approval of another plan authorizes an apply**: a plan of the target `other` under the
name of the plan of `edge`, approved by its own hash, is taken for the plan of `edge`. -/
theorem approved_apply_foreign :
    ∃ s τ q t, Run planExec (PlanEdit SpecImmutable) (edgeCycle "other").run s τ q t ∧
      ∃ pre ev post, τ = pre ++ ev :: post ∧ ev.call = .apply createApp false ∧
        hasActionableOperation createApp = true ∧ (createDocument "edge").id .plain = .ok (createHash "edge") ∧
        ∀ w ∈ pre, ∀ hash, ¬ AuthorizingWrite "edge" hash w := by
  refine ⟨_, _, _, _, planServe_run _ (createHash "edge") (edgeCycle "other").run (approvedStore "other"), ?_⟩
  obtain ⟨happlied, hwritten⟩ : firstApplied (edgeTrace "other") = some (createApp, false) ∧
      writtenTargets (edgeTrace "other") = ["other", "other"] := by
    decide +kernel
  obtain ⟨ev, post, hτ, hcall⟩ := split_firstApplied happlied
  refine ⟨_, ev, post, hτ, hcall, rfl, createHash_edge, fun w hw hash hwrite => ?_⟩
  have hmem := target_written hw hwrite
  rw [hwritten] at hmem
  simp at hmem

end FortigateDns
