import FortigateDns.Conc.Trace
import FortigateDns.Spec.PlanStore

/-!
# Consuming an approval

`BeginApprovedApply` and `MarkApproved` read a plan, check it and write its phase, and start
over when the write meets a newer version. The write is accepted only for the version that was
read, so what was checked still holds when it is committed.
-/

namespace FortigateDns

open Go Conc Store

/-- A call to the plan store. -/
abbrev PlanEvent := Event PlanCall PlanAnswer PlanStore

/-- The calls of a run. -/
abbrev PlanLog := Logged PlanCall PlanAnswer PlanStore

/-- Calls are made in states with `P`; every event has the property `Φ`. -/
def planContract (P : PlanStore → Prop) (env : PlanStore → PlanStore → Prop)
    (Φ : List PlanEvent → PlanEvent → Prop) : Contract PlanCall PlanAnswer PlanLog :=
  logged (fun e s r t => P s ∧ planExec e s r t) env Φ

/-- A call that the provider does not see. -/
def PlanCall.Internal : PlanCall → Prop
  | .apply _ _ => False
  | _ => True

theorem PlanEdit.later {Admitted : PlanStore → ChangePlan → Prop} {s t : PlanStore} (h : PlanEdit Admitted s t) :
    Later s t := by
  cases h with
  | create draft => exact create_later s draft {}
  | update object h => exact update_later s object
  | updateStatus object => exact updateStatus_later s object
  | delete name version => exact delete_later s name version

section

variable {P : PlanStore → Prop} {env : PlanStore → PlanStore → Prop} {Φ : List PlanEvent → PlanEvent → Prop}
variable {α β ε : Type} {s : PlanLog} {o : ChangePlan} {h : List PlanEvent}

theorem log_stable (p : List PlanEvent → Prop) : (planContract P env Φ).Stable fun s => p s.history := by
  intro s t hst hs
  rw [hst.2]
  exact hs

theorem stored_then {σ : Type} {C : Contract PlanCall PlanAnswer σ} {s : σ} {r : Except StoreError α}
    {f : α → PlanAction β} {Q : β → σ → Prop} (hf : ∀ a, r = .ok a → Safe C (f a).run (Ensures Q) s) :
    Safe C (stored r >>= f).run (Ensures Q) s := by
  cases r with
  | error err => exact safe_throw
  | ok a => exact hf a rfl

section

variable (hΦ : ∀ h ev, ev.call.Internal → Φ h ev)
include hΦ

/-- One call that the provider does not see, with what is known before it. -/
theorem internal_then {e : PlanCall} {f : PlanAnswer e → Act PlanCall PlanAnswer ε β} {I : PlanLog → Prop}
    {Q : β → PlanLog → Prop} (he : e.Internal) (hI : (planContract P env Φ).Stable I) (hs : I s)
    (hf : ∀ s' r t, I s' → P s'.state → planExec e s'.state r t →
      Safe (planContract P env Φ) (f r).run (Ensures Q) ⟨t, s'.history ++ [⟨e, s'.state, r, t⟩]⟩) :
    Safe (planContract P env Φ) (Act.call e >>= f).run (Ensures Q) s := by
  refine safe_then_call hI hs fun s' hs' r t hexec => ⟨hΦ _ _ he, ?_⟩
  obtain ⟨t, history⟩ := t
  obtain ⟨⟨hP, hexec⟩, hhist⟩ := hexec
  obtain rfl : history = s'.history ++ [⟨e, s'.state, r, t⟩] := hhist
  exact hf s' r t hs' hP hexec

variable (henv : ∀ s t, env s t → Later s t)
include henv

omit hΦ in
theorem seenPlan_stable (o : ChangePlan) : (planContract P env Φ).Stable fun s => Seen o s.state :=
  fun _ _ hst hs => hs.later (henv _ _ hst.1)

/-- **What a check has found**: a plan that is neither stale nor completed, whose approval is its
hash, and which had not expired at the time that was read. -/
structure PlanChecked (o : ChangePlan) (checks : List PlanEvent) : Prop where
  phase : terminalPlanPhase o.status.phase = false
  approval : o.spec.approval = o.spec.plan.planHash
  given : o.spec.approval ≠ ""
  unexpired : ∀ expiresAt, o.spec.plan.expiresAt = some expiresAt →
    ∃ s now, checks = [⟨.now, s, now, s⟩] ∧ now < expiresAt

/-- The knowledge after a check. -/
def AfterCheck (V : ChangePlan → List PlanEvent → Prop) (o : ChangePlan) (h : List PlanEvent)
    (s : PlanLog) : Prop :=
  ∃ checks, s.history = h ++ checks ∧ V o checks ∧ Seen o s.state

omit hΦ in
theorem afterCheck_stable (V : ChangePlan → List PlanEvent → Prop) (o : ChangePlan) (h : List PlanEvent) :
    (planContract P env Φ).Stable (AfterCheck V o h) := by
  rintro s t hst ⟨checks, hhist, hV, hseen⟩
  exact ⟨checks, hst.2.trans hhist, hV, hseen.later (henv _ _ hst.1)⟩

theorem expired_safe (hh : s.history = h) (hseen : Seen o s.state) :
    Safe (planContract P env Φ) (ChangePlanStore.expired o).run
      (Ensures fun expired => AfterCheck (fun o checks => expired = false → ∀ expiresAt,
        o.spec.plan.expiresAt = some expiresAt → ∃ s now, checks = [⟨.now, s, now, s⟩] ∧
          now < expiresAt) o h) s := by
  unfold ChangePlanStore.expired
  split
  · rename_i hexp
    refine safe_pure (afterCheck_stable henv _ o h) ⟨[], by rw [hh, List.append_nil], ?_, hseen⟩
    intro _ expiresAt hsome
    rw [hexp] at hsome
    simp at hsome
  · rename_i expiresAt hexp
    refine internal_then hΦ trivial ((log_stable fun l => l = h).and (seenPlan_stable henv o)) ⟨hh, hseen⟩
      fun s' now t hs' _ hexec => ?_
    obtain rfl : t = s'.state := hexec
    refine safe_pure (afterCheck_stable henv _ o h) ⟨_, by rw [← hs'.1], ?_, hs'.2⟩
    intro hnot expiresAt' hsome
    obtain rfl := Option.some.inj (hexp.symm.trans hsome)
    exact ⟨_, _, rfl, by simpa using hnot⟩

theorem requireExactApproval_safe (hh : s.history = h) (hseen : Seen o s.state) :
    Safe (planContract P env Φ) (ChangePlanStore.requireExactApproval o).run
      (Ensures fun _ => AfterCheck PlanChecked o h) s := by
  unfold ChangePlanStore.requireExactApproval
  split
  · exact safe_throw
  rename_i hphase
  rw [not_or, Bool.not_eq_true] at hphase
  refine safe_seq (expired_safe hΦ henv hh hseen) fun expired t hafter => ?_
  split
  · exact safe_throw
  rename_i hexpired
  split
  · exact safe_throw
  rename_i hgiven
  split
  · exact safe_throw
  rename_i happroval
  obtain ⟨checks, hhist, hclear, hseen⟩ := hafter
  exact safe_pure (afterCheck_stable henv _ o h)
    ⟨checks, hhist, ⟨hphase.2, not_not.1 happroval, hgiven, hclear (by simpa using hexpired)⟩, hseen⟩

/-- What the validation of an approved phase finds. -/
structure Consumable (expected o : ChangePlan) (checks : List PlanEvent) : Prop where
  uid : o.uid = expected.uid
  planHash : o.spec.plan.planHash = expected.spec.plan.planHash
  deleting : o.deleting = false
  checked : PlanChecked o checks

theorem requireApproved_safe {expected : ChangePlan} (hh : s.history = h) (hseen : Seen o s.state) :
    Safe (planContract P env Φ) (ChangePlanStore.requireApproved expected o).run
      (Ensures fun _ => AfterCheck (Consumable expected) o h) s := by
  unfold ChangePlanStore.requireApproved
  split
  · exact safe_throw
  rename_i hsame
  simp only [not_or, not_not, Bool.not_eq_true] at hsame
  refine safe_mono (Ensures.mono ?_) (requireExactApproval_safe hΦ henv hh hseen)
  rintro _ t ⟨checks, hhist, hchecked, hseen⟩
  exact ⟨checks, hhist, ⟨hsame.1, hsame.2.1, hsame.2.2, hchecked⟩, hseen⟩

/-- **The last attempt of a phase write**: the read, the checks, and the write of the new status
on the very object that was read. -/
structure Wrote (P : PlanStore → Prop) (V : ChangePlan → List PlanEvent → Prop) (name : String)
    (phase : PlanPhase) (n : ChangePlan) (l : List PlanEvent) : Prop where
  events : ∃ pre o s₁ checks status s₂ t,
    l = pre ++ [⟨.get name, s₁, .ok o, s₁⟩] ++ checks ++ [⟨.updateStatus { o with status := status },
      s₂, .ok n, t⟩] ∧
    o.name = name ∧ V o checks ∧ status.phase = phase ∧ P s₂ ∧ o ∈ s₂.objects ∧ n ∈ t.objects ∧ n.uid = o.uid ∧
    n.name = name ∧ n.spec = o.spec ∧ n.status = status

variable {dr : DocumentRuntime} {name : String} {phase : PlanPhase} {outcomes : List OperationOutcome}
variable {validate : ChangePlan → PlanAction Unit} {V : ChangePlan → List PlanEvent → Prop}

theorem updatePhaseOnce_wrote (hphase : terminalPlanPhase phase = false)
    (hvalidate : ∀ o h s, s.history = h → Seen o s.state →
      Safe (planContract P env Φ) (validate o).run (Ensures fun _ => AfterCheck V o h) s) :
    Safe (planContract P env Φ) (ChangePlanStore.updatePhaseOnce dr name phase outcomes validate).run
      (Ensures fun n s => Wrote P V name phase n s.history) s := by
  unfold ChangePlanStore.updatePhaseOnce
  refine internal_then hΦ trivial (stable_const True) trivial fun s' r t _ _ hexec => ?_
  obtain ⟨rfl, hr⟩ := hexec
  refine stored_then fun o ho => ?_
  subst ho
  have hget : s'.state.get name = .ok o := by
    rcases hr with hr | hr
    · exact hr.symm
    · simp at hr
  obtain ⟨hmem, hname⟩ := get_ok hget
  refine safe_seq (hvalidate o _ _ rfl (seen_of_mem hmem)) fun _ t hafter => ?_
  have hnone : ChangePlanStore.completedAt phase = pure none := by
    unfold ChangePlanStore.completedAt
    rw [hphase, if_neg Bool.false_ne_true]
  rw [hnone]
  refine safe_pure_then ?_
  refine internal_then hΦ trivial (afterCheck_stable henv V o _) hafter fun s₂ r t hs₂ hP hexec => ?_
  obtain ⟨checks, hhist, hV, hseen⟩ := hs₂
  cases r with
  | error err => exact safe_throw
  | ok n =>
    have hput := Answered.ok hexec
    obtain ⟨hold, hnew, huid, hname', hspec, hstatus⟩ := updateStatus_committed hseen hput rfl
    refine safe_pure (log_stable fun l => Wrote P V name phase n l) ⟨?_⟩
    exact ⟨s'.history, o, s'.state, checks, n.status, s₂.state, t, by rw [hhist, hstatus], hname,
      hV, by rw [hstatus], hP, hold, hnew, huid,
      hname'.trans hname, hspec, rfl⟩

omit hΦ henv in
theorem retryOnConflict_safe {σ : Type} {C : Contract PlanCall PlanAnswer σ} {x : PlanAction α} {Q : α → σ → Prop}
    (hQ : ∀ a, C.Stable (Q a)) (hx : ∀ s, Safe C x.run (Ensures Q) s) (retries : Nat) (s : σ) :
    Safe C (retryOnConflict x retries).run (Ensures Q) s := by
  induction retries generalizing s with
  | zero => exact hx s
  | succ retries ih =>
    refine safe_bind (safe_bind (safe_mono ?_ (hx s)))
    intro r t hr
    refine safe_ret_iff.2 fun u hu => ?_
    cases r with
    | ok a => exact safe_pure (hQ a) ((hQ a).later hr hu)
    | error err =>
      -- only a conflict is tried again
      cases err with
      | store e =>
        cases e with
        | conflict => exact ih u
        | _ => exact safe_throw
      | _ => exact safe_throw

theorem updatePhase_wrote (hphase : terminalPlanPhase phase = false)
    (hvalidate : ∀ o h s, s.history = h → Seen o s.state →
      Safe (planContract P env Φ) (validate o).run (Ensures fun _ => AfterCheck V o h) s) (s : PlanLog) :
    Safe (planContract P env Φ) (ChangePlanStore.updatePhaseValidated dr name phase outcomes validate).run
      (Ensures fun n s => Wrote P V name phase n s.history) s :=
  retryOnConflict_safe (fun n => log_stable fun l => Wrote P V name phase n l)
    (fun _ => updatePhaseOnce_wrote hΦ henv hphase hvalidate) 4 s

/-- **A write of an approved phase.** -/
theorem updateApprovedPhase_wrote {expected : ChangePlan} (hphase : terminalPlanPhase phase = false)
    (s : PlanLog) :
    Safe (planContract P env Φ) (ChangePlanStore.updateApprovedPhase dr expected phase).run
      (Ensures fun n s => Wrote P (Consumable expected) expected.name phase n s.history) s :=
  updatePhase_wrote hΦ henv hphase (fun _ _ _ hh hseen => requireApproved_safe hΦ henv hh hseen) s

end

end

/-- **Consuming an approval is linearizable.** Whatever other actors do between the calls, a call
that succeeds ends with a write on the very object that its last attempt has read and checked: in
the state before that write the stored plan has the expected UID and hash, is not being deleted,
is neither stale nor completed, is approved by its own hash, and had not expired at the time that
the check read. -/
theorem approval_consumed (dr : DocumentRuntime) (expected n : ChangePlan) (phase : PlanPhase)
    (call : PlanAction ChangePlan)
    (hcall : phase = .applying ∧ call = ChangePlanStore.beginApprovedApply dr expected ∨
      phase = .approved ∧ call = ChangePlanStore.markApproved dr expected) (s t : PlanStore) (τ : List PlanEvent)
    (hrun : Run planExec (PlanEdit fun _ _ => True) call.run s τ (.ret (.ok n)) t) :
    ∃ pre o read checks status before after,
      τ = pre ++ [⟨.get expected.name, read, .ok o, read⟩] ++ checks ++
        [⟨.updateStatus { o with status := status }, before, .ok n, after⟩] ∧
      status.phase = phase ∧ o ∈ before.objects ∧ n ∈ after.objects ∧ n.uid = o.uid ∧ n.status = status ∧
      o.uid = expected.uid ∧ o.spec.plan.planHash = expected.spec.plan.planHash ∧ o.deleting = false ∧
      terminalPlanPhase o.status.phase = false ∧ o.spec.approval = expected.spec.plan.planHash ∧
      ∀ expiresAt, o.spec.plan.expiresAt = some expiresAt →
        ∃ s now, checks = [⟨.now, s, now, s⟩] ∧ now < expiresAt := by
  have hupdate : terminalPlanPhase phase = false ∧
    call = ChangePlanStore.updateApprovedPhase dr expected phase := by
    rcases hcall with ⟨rfl, rfl⟩ | ⟨rfl, rfl⟩ <;> exact ⟨rfl, rfl⟩
  obtain ⟨hphase, rfl⟩ := hupdate
  have hsafe : Safe (planContract (fun _ => True) (PlanEdit fun _ _ => True) fun _ _ => True)
      (ChangePlanStore.updateApprovedPhase dr expected phase).run
      (Ensures fun n s => Wrote (fun _ => True) (Consumable expected) expected.name phase n s.history) ⟨s, []⟩ :=
    updateApprovedPhase_wrote (fun _ _ _ => trivial) (fun _ _ h => h.later) hphase _
  have hwrote : Wrote (fun _ => True) (Consumable expected) expected.name phase n τ :=
    run_result hsafe (hrun.assume fun _ _ => trivial)
  obtain ⟨pre, o, read, checks, status, before, after, hτ, -, hV, hstatus, -, hold, hnew, huid, -, -, hn⟩ :=
    hwrote.events
  exact ⟨pre, o, read, checks, status, before, after, hτ, hstatus, hold, hnew, huid, hn, hV.uid, hV.planHash,
    hV.deleting, hV.checked.phase, hV.checked.approval.trans hV.planHash, hV.checked.unexpired⟩

theorem planServe_exec (planHash : String) (e : PlanCall) (s : PlanStore) :
    planExec e s (planServe planHash e s).1 (planServe planHash e s).2 := by
  cases e with
  | list => exact ⟨rfl, Or.inl ⟨_, .refl _, rfl⟩⟩
  | get name => exact ⟨rfl, Or.inl rfl⟩
  | create draft => exact ⟨0, Or.inl ⟨rfl, rfl⟩⟩
  | updateStatus object => exact Or.inl ⟨rfl, rfl⟩
  | delete name => exact Or.inl ⟨rfl, rfl⟩
  | _ => rfl

/-- The run of a program on a server that never fails. -/
theorem planServe_run {α : Type} (env : PlanStore → PlanStore → Prop) (planHash : String)
    (p : Prog PlanCall PlanAnswer α) (s : PlanStore) :
    Run planExec env p s (runWith (planServe planHash) p s).1 (.ret (runWith (planServe planHash) p s).2.1)
      (runWith (planServe planHash) p s).2.2 := runWith_run (planServe_exec planHash) p s

/-- The store with the given plans. -/
def planStoreOf (plans : List ChangePlan) : PlanStore :=
  plans.foldl (fun s plan => (s.create plan plan.status).2) .empty

/-- A plan of the target `edge` that was approved. -/
def approvedPlan : ChangePlan where
  name := "edge-1"
  objectNamespace := "system"
  uid := 1
  resourceVersion := 1
  finalizers := []
  deleting := false
  spec :=
    { plan :=
        { schemaVersion := documentSchemaVersion, targetRef := "edge", planHash := "4bf5", canonicalDocument := []
          providerRevision := "7", discoveryGeneration := 1, policyGeneration := 0
          ownershipResourceVersions := []
          operations := [], expiresAt := some 10 }
      approval := "4bf5" }
  status := { phase := .approved }

/-- The plan after its approval was consumed. -/
def applyingPlan : ChangePlan := { approvedPlan with resourceVersion := 2, status := { phase := .applying } }

theorem approval_consumed_applying :
    ∃ τ t, Run planExec (PlanEdit fun _ _ => True) (ChangePlanStore.beginApprovedApply .plain approvedPlan).run
        (planStoreOf [approvedPlan]) τ (.ret (.ok applyingPlan)) t ∧
      ∃ pre o read checks status before after,
        τ = pre ++ [⟨.get "edge-1", read, .ok o, read⟩] ++ checks ++
          [⟨.updateStatus { o with status := status }, before, .ok applyingPlan, after⟩] ∧
        o ∈ before.objects ∧ o.spec.approval = "4bf5" := by
  have hrun := planServe_run (PlanEdit fun _ _ => True) "4bf5"
    (ChangePlanStore.beginApprovedApply .plain approvedPlan).run (planStoreOf [approvedPlan])
  have hresult : (runWith (planServe "4bf5") (ChangePlanStore.beginApprovedApply .plain approvedPlan).run
      (planStoreOf [approvedPlan])).2.1 = .ok applyingPlan := by
    decide +kernel
  rw [hresult] at hrun
  obtain ⟨pre, o, read, checks, status, before, after, hτ, -, hold, -, -, -, -, -, -, -, happroval, -⟩ :=
    approval_consumed .plain approvedPlan applyingPlan .applying _ (Or.inl ⟨rfl, rfl⟩) _ _ _ hrun
  exact ⟨_, _, hrun, pre, o, read, checks, status, before, after, hτ, hold, happroval⟩

end FortigateDns
