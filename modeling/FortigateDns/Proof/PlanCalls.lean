import FortigateDns.Proof.Approval

/-!
# Which calls the programs make

Most parts of a cycle never put a plan into a phase in which it can still be applied, and never
call the provider: they read, write terminal phases and delete.

* `staleSuperseded_settling`, `revalidate_settling` and the like: programs with such calls only.
-/

namespace FortigateDns

open Go Conc Store

variable {phase : PlanPhase}
variable (name : Option String)

/-- A call that puts no plan into a phase that is not terminal, and does not reach the provider. -/
def PlanCall.Settling : PlanCall → Prop
  | .create _ | .apply _ _ => False
  | .updateStatus object => terminalPlanPhase object.status.phase = true
  | _ => True

/-- A call that writes no phase and creates no plan. -/
def PlanCall.Keeping : PlanCall → Prop
  | .create _ | .apply _ _ | .updateStatus _ => False
  | _ => True

/-- What writes no phase revives no plan. -/
theorem keeping_settling (e : PlanCall) (h : e.Keeping) : e.Settling := by
  cases e with
  | create draft => exact h
  | apply operations dryRun => exact h
  | updateStatus object => exact h.elim
  | _ => trivial

theorem settling_internal (e : PlanCall) (h : e.Settling) : e.Internal := by
  cases e with
  | apply operations dryRun => exact h
  | _ => trivial

section

variable {P : PlanCall → Prop} {α β ε σ : Type} {C : Contract PlanCall PlanAnswer σ} {s : σ}

/-- Go on with what a check has passed. -/
theorem verified_then {r : Except PlanError α} {f : α → PlanAction β} {Q : β → σ → Prop}
    (hf : ∀ a, r = .ok a → Safe C (f a).run (Ensures Q) s) : Safe C (verified r >>= f).run (Ensures Q) s := by
  cases r with
  | error err => exact safe_throw
  | ok a => exact hf a rfl

/-- A failure is translated, no more. -/
theorem orFail_safe {b : Bool} {x : PlanAction α} {Q : α → σ → Prop} (hQ : ∀ a, C.Stable (Q a))
    (hx : Safe C x.run (Ensures Q) s) : Safe C (orFail b x).run (Ensures Q) s := by
  refine safe_bind (safe_mono ?_ hx)
  intro r t hr
  cases r with
  | error err => exact safe_throw
  | ok a => exact safe_pure (hQ a) hr

/-- A program with harmless calls only is safe. -/
theorem safe_action {x : Act PlanCall PlanAnswer ε α} (hx : x.run.Calls P)
    (hP : ∀ e s r t, P e → C.exec e s r t → C.Guar e s r t) : Safe C x.run (Ensures fun _ _ => True) s := by
  refine safe_mono ?_ (safe_calls hx hP s)
  intro r t _
  cases r <;> trivial

theorem calls_stored {r : Except StoreError α} : (stored r).run.Calls P := by
  cases r with
  | error err => exact calls_throw
  | ok a => exact calls_pure

theorem calls_verified {r : Except PlanError α} : (verified r).run.Calls P := by
  cases r with
  | error err => exact calls_throw
  | ok a => exact calls_pure

theorem calls_orFail {b : Bool} {x : PlanAction α} (hx : x.run.Calls P) : (orFail b x).run.Calls P := by
  refine Prog.Calls.bind hx fun r => ?_
  cases r with
  | error err => exact calls_throw (ε := ApplyFailure) (α := α)
  | ok a => exact calls_pure (ε := ApplyFailure) (α := α)

/-- Every attempt makes the same kinds of calls. -/
theorem retryOnConflict_calls {x : PlanAction α} (hx : x.run.Calls P) (retries : Nat) :
    (retryOnConflict x retries).run.Calls P := by
  induction retries with
  | zero => exact hx
  | succ retries ih =>
    refine calls_seq (calls_attempt hx) fun r => ?_
    cases r with
    | ok a => exact calls_pure
    | error err =>
      cases err with
      | store e =>
        cases e with
        | conflict => exact ih
        | _ => exact calls_throw
      | _ => exact calls_throw

end

section

variable {dr : DocumentRuntime} {cfg : ApplyConfig} {P : PlanCall → Prop} {α : Type}

open ChangePlanStore

theorem listTarget_keeping (targetName : String) : (listTarget targetName).run.Calls PlanCall.Keeping :=
  calls_seq (calls_call trivial) fun _ => calls_seq calls_stored fun _ => calls_pure

theorem requireExactApproval_settling (o : ChangePlan) :
    (requireExactApproval o).run.Calls PlanCall.Settling := by
  have hexpired : (expired o).run.Calls PlanCall.Settling := by
    unfold expired
    split
    · exact calls_pure
    · exact calls_seq (calls_call trivial) fun _ => calls_pure
  refine calls_ite calls_throw (calls_seq hexpired fun _ => ?_)
  exact calls_ite calls_throw (calls_ite calls_throw (calls_ite calls_throw calls_pure))

/-- A phase write makes the calls of its check, reads, and writes the phase. -/
theorem updatePhaseValidated_calls {name : String} {outcomes : List OperationOutcome}
    {validate : ChangePlan → PlanAction Unit} (hget : P (.get name)) (hnow : P .now)
    (hwrite : ∀ (o : ChangePlan) (status : PlanStatus), status.phase = phase →
      P (.updateStatus { o with status := status }))
    (hvalidate : ∀ o, (validate o).run.Calls P) :
    (updatePhaseValidated dr name phase outcomes validate).run.Calls P := by
  refine retryOnConflict_calls ?_ 4
  refine calls_seq (calls_call hget) fun _ => calls_seq calls_stored fun o => calls_seq (hvalidate o) fun _ => ?_
  have hcompleted : (completedAt phase).run.Calls P :=
    calls_ite (calls_seq (calls_call hnow) fun _ => calls_pure) calls_pure
  refine calls_seq hcompleted fun _ => ?_
  exact calls_seq (calls_call (hwrite _ _ rfl)) fun _ => calls_stored

/-- A terminal phase settles the plan. -/
theorem updatePhase_settling (hphase : terminalPlanPhase phase = true) (name : String)
    (outcomes : List OperationOutcome) : (updatePhase dr name phase outcomes).run.Calls PlanCall.Settling := by
  refine updatePhaseValidated_calls trivial trivial (fun o status hstatus => ?_) fun _ => calls_pure
  show terminalPlanPhase status.phase = true
  rw [hstatus]
  exact hphase

theorem updateApprovedPhase_internal (expected : ChangePlan) (phase : PlanPhase) :
    (updateApprovedPhase dr expected phase).run.Calls PlanCall.Internal :=
  updatePhaseValidated_calls trivial trivial (fun _ _ _ => trivial) fun o =>
    calls_ite calls_throw ((requireExactApproval_settling o).mono settling_internal)

/-- Pruning writes no phase. -/
theorem pruneHistory_keeping (targetName : String) (retention : Int) :
    (pruneHistory targetName retention).run.Calls PlanCall.Keeping := by
  have hall : ∀ items, (pruneAll items).run.Calls PlanCall.Keeping := by
    intro items
    induction items with
    | nil => exact calls_pure
    | cons item rest ih =>
      refine calls_seq (calls_call trivial) fun r => ?_
      split
      · exact ih
      · exact ih
      · exact calls_throw
  have hprune : (prune targetName retention).run.Calls PlanCall.Keeping :=
    calls_ite calls_throw (calls_seq (listTarget_keeping targetName) fun items => hall _)
  exact calls_ite hprune calls_pure

theorem staleAll_settling (keepHash : String) (items : List ChangePlan) :
    (staleAll dr keepHash items).run.Calls PlanCall.Settling := by
  induction items with
  | nil => exact calls_pure
  | cons item rest ih => exact calls_ite ih (calls_seq (updatePhase_settling rfl _ _) fun _ => ih)

/-- Making plans stale revives none. -/
theorem staleSuperseded_settling (targetName keepHash : String) :
    (staleSuperseded dr targetName keepHash).run.Calls PlanCall.Settling :=
  calls_seq ((listTarget_keeping targetName).mono keeping_settling) fun items => staleAll_settling keepHash items

theorem writeTerminalPhase_settling (hphase : terminalPlanPhase phase = true) (name : String)
    (outcomes : List OperationOutcome) :
    (Runner.writeTerminalPhase dr name phase outcomes).run.Calls PlanCall.Settling :=
  calls_seq (calls_call trivial) fun _ =>
    calls_ite calls_throw (calls_seq (updatePhase_settling hphase _ _) fun _ => calls_pure)

/-- A plan that failed its checks becomes stale. -/
theorem failStale_settling (err : PlanError) :
    (Runner.failStale dr name err : ApplyAction α).run.Calls PlanCall.Settling := by
  unfold Runner.failStale
  split
  · exact calls_seq (calls_orFail (calls_attempt (writeTerminalPhase_settling rfl _ _))) fun _ => calls_throw
  · exact calls_throw

theorem revalidate_settling (planID : String) :
    (Runner.revalidate dr name planID).run.Calls PlanCall.Settling := by
  refine calls_seq (calls_call trivial) fun r => ?_
  split
  · exact failStale_settling _ _
  · exact calls_ite (failStale_settling _ _) calls_pure

theorem beforeMutation_settling : (Runner.beforeMutation dr cfg name).run.Calls PlanCall.Settling := by
  refine calls_ite (calls_seq (calls_call trivial) fun r => ?_) calls_pure
  split
  · exact failStale_settling _ _
  · exact calls_pure

/-- Whatever happened, the phase at the end is terminal. -/
theorem terminalPhase_terminal (err : Option ProviderError) (failed executionSucceeded : Bool) :
    terminalPlanPhase (Runner.terminalPhase err failed executionSucceeded) = true := by
  unfold Runner.terminalPhase
  split
  · rfl
  · split <;> rfl

theorem recordTerminal_settling (hphase : terminalPlanPhase phase = true) (outcomes : List OperationOutcome)
    (failed : Bool) : (Runner.recordTerminal dr name phase outcomes failed).run.Calls PlanCall.Settling := by
  unfold Runner.recordTerminal
  split
  · exact calls_pure
  · refine calls_seq (calls_attempt (writeTerminalPhase_settling hphase _ _)) fun r => ?_
    split
    · exact calls_ite calls_pure calls_throw
    · exact calls_pure

theorem writePlanFile_settling (document : Document) :
    (Runner.writePlanFile cfg document).run.Calls PlanCall.Settling := by
  refine calls_ite (calls_seq (calls_call trivial) fun r => ?_) calls_pure
  split
  · exact calls_throw
  · exact calls_pure

theorem checkApprovedHash_settling (planID : String) :
    (Runner.checkApprovedHash cfg planID).run.Calls PlanCall.Settling :=
  calls_ite calls_verified calls_pure

/-- A cycle with nothing to mutate only makes plans stale. -/
theorem supersedeAll_settling (document : Document) :
    (Runner.supersedeAll dr cfg document).run.Calls PlanCall.Settling :=
  calls_ite (staleSuperseded_settling _ _) calls_pure

end

/-- The object that is created has the given name, and the hash of the document. -/
theorem newChangePlanObject_ok {dr : DocumentRuntime} {objectNamespace name : String} {document : Document}
    {expiresAt : Option Nat} {object : ChangePlan}
    (h : newChangePlanObject dr objectNamespace name document expiresAt = .ok object) :
    object.name = name ∧ document.id dr = .ok object.spec.plan.planHash := by
  unfold newChangePlanObject newChangePlanSpec at h
  cases hcanonical : ofDocument (document.canonicalJSON dr) with
  | error err =>
    rw [hcanonical] at h
    cases h
  | ok canonical =>
  cases hid : document.id dr with
  | error err =>
    rw [hcanonical, hid] at h
    cases h
  | ok hash =>
  cases hoperations : summarizeOperations dr document with
  | error err =>
    rw [hcanonical, hid, hoperations] at h
    cases h
  | ok operations =>
  cases hversions : ownershipResourceVersions [] document.preconditions.ownership with
  | error err =>
    rw [hcanonical, hid, hoperations, hversions] at h
    cases h
  | ok versions =>
    rw [hcanonical, hid, hoperations, hversions] at h
    obtain rfl := Except.ok.inj h
    exact ⟨rfl, rfl⟩

end FortigateDns
