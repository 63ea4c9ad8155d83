import FortigateDns.Conc.Interleaving
import FortigateDns.Spec.ChangePlan
import FortigateDns.Spec.Outcomes

/-!
# The change plan store and the apply of a prepared cycle

`internal/plan/store.go` and `applyPrepared` of `internal/controller/runner.go` as programs:
every access to the API server, the clock, the contexts and the provider is a call. `planExec`
says what a call does to the stored plans, `PlanEdit` and `UserEdit` what others do, and
`cycleSystem` is a runner whose cycles may end anywhere.
-/

namespace FortigateDns

open Go Conc

/-- The calls to the outside. `canceled` asks for the context with the reconcile deadline,
`parentCanceled` for its parent; `prepare` is the revalidating `Prepare`, of which the runner
reads the plan hash; `apply` is the provider. -/
inductive PlanCall
  | list
  | get (name : String)
  | create (draft : ChangePlan)
  | updateStatus (object : ChangePlan)
  | delete (name : String)
  | now
  | canceled
  | parentCanceled
  | writeFile (path : String) (document : Document) (overwrite : Bool)
  | prepare
  | beforeMutation
  | apply (operations : List Operation) (dryRun : Bool)

/-- What a call is answered with. -/
@[reducible] def PlanAnswer : PlanCall → Type
  | .list => Except StoreError (List ChangePlan)
  | .get _ | .create _ | .updateStatus _ => Except StoreError ChangePlan
  | .delete _ => Except StoreError Unit
  | .now => Nat
  | .canceled | .parentCanceled => Bool
  | .writeFile _ _ _ | .beforeMutation => Except Unit Unit
  | .prepare => Except Unit String
  | .apply _ _ => List OperationOutcome × Option ProviderError

/-- A program of calls to the plan store. -/
abbrev PlanAction := Act PlanCall PlanAnswer PlanError

/-- The result of an API call. -/
def stored {α : Type} : Except StoreError α → PlanAction α
  | .ok a => pure a
  | .error err => throw (.store err)

/-- The result of a pure function that may fail. -/
def verified {α : Type} : Except PlanError α → PlanAction α
  | .ok a => pure a
  | .error err => throw err

/-- `retry.RetryOnConflict`, with `retries` attempts after the first. -/
def retryOnConflict {α : Type} (x : PlanAction α) : Nat → PlanAction α
  | 0 => x
  | retries + 1 => do
    match ← attempt x with
    | .ok a => pure a
    | .error (.store .conflict) => retryOnConflict x retries
    | .error err => throw err

namespace ChangePlanStore

/-- Whether a plan has expired; the clock is read only for a plan that expires. -/
def expired (object : ChangePlan) : PlanAction Bool :=
  match object.spec.plan.expiresAt with
  | none => pure false
  | some expiresAt => do
    let now ← Act.call PlanCall.now
    pure (decide (expiresAt ≤ now))

/-- The approval is the hash of the plan, and in time. -/
def requireExactApproval (object : ChangePlan) : PlanAction Unit :=
  if object.status.phase = .stale ∨ terminalPlanPhase object.status.phase then
    throw (.approvalRequired (.phase object.status.phase))
  else do
    let expired ← expired object
    if expired then throw (.approvalRequired .expired)
    else if object.spec.approval = "" then throw (.approvalRequired .missing)
    else if object.spec.approval ≠ object.spec.plan.planHash then throw (.approvalRequired .mismatch)
    else pure ()

section

variable (dr : DocumentRuntime)

/-- The completion time, which is read for terminal phases. -/
def completedAt (phase : PlanPhase) : PlanAction (Option Nat) :=
  if terminalPlanPhase phase then do
    let now ← Act.call PlanCall.now
    pure (some now)
  else pure none

/-- One attempt of `updatePhase`. -/
def updatePhaseOnce (name : String) (phase : PlanPhase) (outcomes : List OperationOutcome)
    (validate : ChangePlan → PlanAction Unit) : PlanAction ChangePlan := do
  let current ← Act.call (PlanCall.get name)
  let current ← stored current
  validate current
  let completed ← completedAt phase
  let status : PlanStatus :=
    { phase := phase, observedGeneration := current.spec.generation, outcomes := summarizeOutcomes dr outcomes
      completedAt := completed }
  let updated ← Act.call (PlanCall.updateStatus { current with status := status })
  stored updated

/-- `updatePhase`: `retry.DefaultRetry` makes five attempts. -/
def updatePhaseValidated (name : String) (phase : PlanPhase) (outcomes : List OperationOutcome)
    (validate : ChangePlan → PlanAction Unit) : PlanAction ChangePlan :=
  retryOnConflict (updatePhaseOnce dr name phase outcomes validate) 4

/-- Without a further check. -/
def updatePhase (name : String) (phase : PlanPhase) (outcomes : List OperationOutcome) : PlanAction ChangePlan :=
  updatePhaseValidated dr name phase outcomes fun _ => pure ()

/-- The validation of `updateApprovedPhase`. -/
def requireApproved (expected current : ChangePlan) : PlanAction Unit :=
  if current.uid ≠ expected.uid ∨ current.spec.plan.planHash ≠ expected.spec.plan.planHash ∨ current.deleting then
    throw (.approvalRequired .identityChanged)
  else requireExactApproval current

/-- Only of the plan that was approved. -/
def updateApprovedPhase (expected : ChangePlan) (phase : PlanPhase) : PlanAction ChangePlan :=
  updatePhaseValidated dr expected.name phase [] (requireApproved expected)

/-- Before the first request. -/
def beginApprovedApply (expected : ChangePlan) : PlanAction ChangePlan :=
    updateApprovedPhase dr expected .applying

/-- The approval was seen. -/
def markApproved (expected : ChangePlan) : PlanAction ChangePlan := updateApprovedPhase dr expected .approved

/-- The plans of one target. -/
def listTarget (targetName : String) : PlanAction (List ChangePlan) := do
  let items ← Act.call PlanCall.list
  let items ← stored items
  pure (items.filter fun item => item.spec.plan.targetRef = targetName)

/-- The loop of `Prune` over the plans to delete. -/
def pruneAll : List ChangePlan → PlanAction Unit
  | [] => pure ()
  | item :: rest => do
    match ← Act.call (PlanCall.delete item.name) with
    | .ok () | .error .notFound => pruneAll rest
    | .error err => throw (.store err)

/-- Only plans that ended are deleted, the oldest first. -/
def prune (targetName : String) (retention : Int) : PlanAction Unit :=
  if retention < 0 then throw .negativeRetention
  else do
    let items ← listTarget targetName
    let terminal := (items.filter fun item => terminalPlanPhase item.status.phase).insertionSort
      fun a b => newerPlan a b
    pruneAll (terminal.drop retention.toNat)

/-- What `StaleSuperseded` leaves alone. -/
def notSuperseded (keepHash : String) (item : ChangePlan) : Bool :=
  item.spec.plan.planHash == keepHash || terminalPlanPhase item.status.phase || item.status.phase == .stale

/-- The loop of `StaleSuperseded`. -/
def staleAll (keepHash : String) : List ChangePlan → PlanAction Unit
  | [] => pure ()
  | item :: rest =>
    if notSuperseded keepHash item then staleAll keepHash rest
    else do
      let _ ← updatePhase dr item.name .stale []
      staleAll keepHash rest

/-- The other plans of the target become stale. -/
def staleSuperseded (targetName keepHash : String) : PlanAction Unit := do
  let items ← listTarget targetName
  staleAll dr keepHash items

/-- A plan that `PersistCurrent` may return again. -/
def reusable (item : ChangePlan) : Bool := !terminalPlanPhase item.status.phase && item.status.phase != .stale

/-- The name for a new plan: the plain one, unless a plan of the target has it already. -/
def chooseName (targetName hash : String) (items : List ChangePlan) : PlanAction String :=
  if items.any fun item => item.name == planObjectName targetName hash then do
    let now ← Act.call PlanCall.now
    pure (recurringPlanObjectName targetName hash now)
  else pure (planObjectName targetName hash)

variable (unmarshal : List Char → Option Document)

/-- The pruning at the end of `PersistCurrent`, unless the retention is unlimited. -/
def pruneHistory (targetName : String) (retention : Int) : PlanAction Unit :=
  if 0 ≤ retention then prune targetName retention else pure ()

/-- The end of `PersistCurrent`, for a name that is not in use. -/
def createPlan (object : ChangePlan) (targetName : String) (retention : Int) : PlanAction ChangePlan := do
  staleSuperseded dr targetName object.spec.plan.planHash
  let created ← Act.call (PlanCall.create object)
  let created ← stored created
  let result ← updatePhase dr created.name .pendingApproval []
  pruneHistory targetName retention
  pure result

/-- A plan with the same hash is used again. -/
def persistCurrent (objectNamespace : String) (document : Document) (expiresAt : Option Nat) (retention : Int) :
    PlanAction ChangePlan := do
  let items ← listTarget document.target.name
  let wantedHash ← verified (ofDocument (document.id dr))
  match items.find? fun item => item.spec.plan.planHash == wantedHash && reusable item with
  | some candidate => do
    let _ ← verified (documentFromChangePlan dr unmarshal candidate)
    pure candidate
  | none => do
    let name ← chooseName document.target.name wantedHash items
    let object ← verified (newChangePlanObject dr objectNamespace name document expiresAt)
    match ← Act.call (PlanCall.get name) with
    | .ok existing => do
      let _ ← verified (documentFromChangePlan dr unmarshal existing)
      if reusable existing then pure existing else throw (.nameCollision existing.name)
    | .error .notFound => createPlan dr object document.target.name retention
    | .error err => throw (.store err)

end

end ChangePlanStore

/-- What `applyPrepared` reads of the runner and its configuration. The last three say whether
there is a change plan store, a mutation hook, and a client that reports results. -/
structure ApplyConfig where
  planOutput : String := ""
  planOutputOverwrite : Bool := false
  approvedPlanHash : String := ""
  dryRun : Bool := false
  approvalRequired : Bool := false
  requireStableRevision : Bool := false
  planRetention : Int := 0
  changePlanNamespace : String := ""
  hasStore : Bool := false
  hasBeforeMutation : Bool := false
  reportsResults : Bool := true

/-- `planRequested` of `Prepare`. -/
def ApplyConfig.planRequested (cfg : ApplyConfig) : Bool :=
  cfg.planOutput != "" || cfg.approvedPlanHash != "" || cfg.hasStore || cfg.requireStableRevision

/-- What `applyPrepared` reads of a `ReconcileAudit`. -/
structure PreparedPlan where
  operations : List Operation
  document : Document
  planRequested : Bool

/-- `oneShotDocument`, with the target that `Prepare` fills in. -/
def oneShotDocument (target : TargetIdentity) (preconditions : Preconditions)
    (operations : List Operation) : Document :=
  { newDocument target preconditions operations with
    safetyDecisions :=
      [{ code := "provider-snapshot-stable", allowed := true },
       { code := "discovery-complete", allowed := preconditions.discovery.complete }] }

/-- The part of `Prepare` that fills in the plan. -/
def preparePlan (cfg : ApplyConfig) (target : TargetIdentity) (preconditions : Preconditions)
    (operations : List Operation) : PreparedPlan where
  operations := operations
  document := oneShotDocument target preconditions operations
  planRequested := cfg.planRequested

/-- An error of `applyPrepared`, with the `PlanApproved` it leaves behind. -/
structure ApplyFailure where
  planApproved : Bool
  error : PlanError
  deriving DecidableEq, Repr

/-- A program that may fail as the apply does. -/
abbrev ApplyAction := Act PlanCall PlanAnswer ApplyFailure

/-- An action of the store inside `applyPrepared`. -/
def orFail {α : Type} (planApproved : Bool) (x : PlanAction α) : ApplyAction α :=
  ExceptT.mk (Prog.bind x.run fun
    | .ok a => .ret (.ok a)
    | .error err => .ret (.error ⟨planApproved, err⟩))

/-- `VerifyApprovedHash`, for a document with the identifier `planID`. -/
def verifyApprovedHash (planID approved : String) : Except PlanError Unit :=
  if trimSpace approved = "" then .error .approvedHashRequired
  else if trimSpace approved ≠ planID then .error .approvedHashMismatch
  else .ok ()

namespace Runner

variable (dr : DocumentRuntime) (unmarshal : List Char → Option Document) (cfg : ApplyConfig)

/-- Not after a cancellation. -/
def writeTerminalPhase (name : String) (phase : PlanPhase) (outcomes : List OperationOutcome) :
    PlanAction Unit := do
  let canceled ← Act.call PlanCall.parentCanceled
  if canceled then throw .canceled
  else do
    let _ ← ChangePlanStore.updatePhase dr name phase outcomes
    pure ()

/-- Marks the plan stale, if there is one, whatever comes of it, and fails. -/
def failStale {α : Type} (name : Option String) (err : PlanError) : ApplyAction α := do
  match name with
  | some name => do
    let _ ← orFail false (attempt (writeTerminalPhase dr name .stale []))
    throw ⟨false, err⟩
  | none => throw ⟨false, err⟩

/-- Persisting the plan and asking for its approval: the plan, if there is a store. -/
def persistPlan (plan : PreparedPlan) : ApplyAction (Option ChangePlan) :=
  if cfg.hasStore then do
    let retention := if cfg.planRetention = 0 then 20 else cfg.planRetention
    let persisted ← orFail (!cfg.approvalRequired)
      (ChangePlanStore.persistCurrent dr unmarshal cfg.changePlanNamespace plan.document none retention)
    if cfg.approvalRequired then do
      orFail false (ChangePlanStore.requireExactApproval persisted)
      let _ ← orFail false (ChangePlanStore.markApproved dr persisted)
      pure (some persisted)
    else pure (some persisted)
  else pure none

/-- The revalidation right before the apply. -/
def revalidate (name : Option String) (planID : String) : ApplyAction Unit := do
  match ← Act.call PlanCall.prepare with
  | .error _ => failStale dr name .prepare
  | .ok planHash => if planHash = "" ∨ planHash ≠ planID then failStale dr name .preconditionDrift else pure ()

/-- The move to the phase Applying. -/
def beginApply (persisted : Option ChangePlan) : ApplyAction Unit :=
  match persisted with
  | none => pure ()
  | some plan => do
    let _ ← orFail false (if cfg.approvalRequired then ChangePlanStore.beginApprovedApply dr plan
      else ChangePlanStore.updatePhase dr plan.name .applying [])
    pure ()

/-- The plan file, if one is asked for. -/
def writePlanFile (document : Document) : PlanAction Unit :=
  if cfg.planOutput ≠ "" then do
    match ← Act.call (PlanCall.writeFile cfg.planOutput document cfg.planOutputOverwrite) with
    | .error _ => throw .planOutput
    | .ok _ => pure ()
  else pure ()

/-- The approval of a one-shot plan, if one was given. -/
def checkApprovedHash (planID : String) : PlanAction Unit :=
  if cfg.approvedPlanHash ≠ "" then verified (verifyApprovedHash planID cfg.approvedPlanHash) else pure ()

/-- A cycle with nothing to mutate: no plan is current. -/
def supersedeAll (document : Document) : PlanAction Unit :=
  if cfg.hasStore then ChangePlanStore.staleSuperseded dr document.target.name "" else pure ()

/-- `PlanApproved` before there is an approval. -/
def initiallyApproved (plan : PreparedPlan) : Bool :=
  !cfg.approvalRequired || !hasActionableOperation plan.operations

/-- The block for a plan that was requested: the name of the plan object that is now applying. -/
def authorize (plan : PreparedPlan) : ApplyAction (Option String) := do
  let planID ← orFail (initiallyApproved cfg plan) (verified (ofDocument (plan.document.id dr)))
  orFail (initiallyApproved cfg plan) (writePlanFile cfg plan.document)
  orFail (initiallyApproved cfg plan) (checkApprovedHash cfg planID)
  if hasActionableOperation plan.operations then do
    let persisted ← persistPlan dr unmarshal cfg plan
    revalidate dr (persisted.map Object.name) planID
    beginApply dr cfg persisted
    pure (persisted.map Object.name)
  else do
    orFail (initiallyApproved cfg plan) (supersedeAll dr cfg plan.document)
    pure none

/-- The outcomes that stand in for those of a client that reports none. -/
def fallbackOutcomes (operations : List Operation) (err : Option ProviderError) (dryRun : Bool) :
    List OperationOutcome :=
  operations.map fun operation =>
    if operation.type = .conflict then ⟨operation.sanitizedID, .blocked, "planning-conflict"⟩
    else if err.isSome then ⟨operation.sanitizedID, .blocked, "provider-request-failed"⟩
    else if dryRun then ⟨operation.sanitizedID, .blocked, "dry-run"⟩
    else ⟨operation.sanitizedID, .succeeded, ""⟩

/-- The phase that an apply ends with. -/
def terminalPhase (err : Option ProviderError) (failed executionSucceeded : Bool) : PlanPhase :=
  if err = some .interrupted then .interrupted
  else if failed || !executionSucceeded then .failed
  else .succeeded

/-- The hook before the mutation. -/
def beforeMutation (name : Option String) : ApplyAction Unit :=
  if cfg.hasBeforeMutation then do
    match ← Act.call PlanCall.beforeMutation with
    | .error _ => failStale dr name .beforeMutation
    | .ok _ => pure ()
  else pure ()

/-- The last phase of the plan, if there is one; only a run without an error reports that it
could not be written. -/
def recordTerminal (name : Option String) (phase : PlanPhase) (outcomes : List OperationOutcome) (failed : Bool) :
    PlanAction Unit :=
  match name with
  | none => pure ()
  | some name => do
    match ← attempt (writeTerminalPhase dr name phase outcomes) with
    | .error err => if failed then pure () else throw err
    | .ok _ => pure ()

/-- The part of `applyPrepared` after the authorization. -/
def execute (operations : List Operation) (name : Option String) (planApproved : Bool) : ApplyAction Bool := do
  beforeMutation dr cfg name
  let answer ← Act.call (PlanCall.apply operations cfg.dryRun)
  let err := answer.2
  let reported := if cfg.reportsResults then answer.1 else fallbackOutcomes operations err cfg.dryRun
  let validated := validateOperationOutcomes operations reported cfg.dryRun
  let failed := err.isSome || !validated.2
  let executionSucceeded := validated.2 && operationExecutionSucceeded operations validated.1 cfg.dryRun
  orFail planApproved (recordTerminal dr name (terminalPhase err failed executionSucceeded) validated.1 failed)
  if failed then throw ⟨planApproved, .apply err (!validated.2)⟩ else pure planApproved

/-- `applyPrepared`; the result is `PlanApproved`. -/
def applyPrepared (plan : PreparedPlan) : ApplyAction Bool := do
  let canceled ← Act.call PlanCall.canceled
  if canceled then throw ⟨initiallyApproved cfg plan, .canceled⟩
  else if plan.planRequested then do
    let name ← authorize dr unmarshal cfg plan
    execute dr cfg plan.operations name (initiallyApproved cfg plan || cfg.hasStore)
  else execute dr cfg plan.operations none (initiallyApproved cfg plan)

end Runner

/-- **What a call does to the stored plans.** A list comes in any order, a read may fail, and a
write may fail with or without having taken effect. The server fills in the time of creation. -/
def planExec : (e : PlanCall) → PlanStore → PlanAnswer e → PlanStore → Prop
  | .list, s, r, t => t = s ∧ ((∃ items, items.Perm s.objects ∧ r = .ok items) ∨ r = .error .failed)
  | .get name, s, r, t => t = s ∧ (r = s.get name ∨ r = .error .failed)
  | .create draft, s, r, t => ∃ now, s.Answered
      (s.create { draft with spec := { draft.spec with generation := 1, creationTimestamp := now } } {}) r t
  | .updateStatus object, s, r, t => s.Answered (s.updateStatus object) r t
  | .delete name, s, r, t => s.Answered (s.deleteLatest name) r t
  | .now, s, _, t | .canceled, s, _, t | .parentCanceled, s, _, t | .writeFile _ _ _, s, _, t
  | .prepare, s, _, t | .beforeMutation, s, _, t | .apply _ _, s, _, t => t = s

/-- An API server and a provider that never fail, and a `Prepare` that finds the plan `planHash`. -/
def planServe (planHash : String) : (e : PlanCall) → PlanStore → PlanAnswer e × PlanStore
  | .list, s => (.ok s.objects, s)
  | .get name, s => (s.get name, s)
  | .create draft, s => s.create { draft with spec :=
      { draft.spec with generation := 1, creationTimestamp := 0 } } {}
  | .updateStatus object, s => s.updateStatus object
  | .delete name, s => s.deleteLatest name
  | .now, s => (0, s)
  | .canceled, s => (false, s)
  | .parentCanceled, s => (false, s)
  | .writeFile _ _ _, s => (.ok (), s)
  | .prepare, s => (.ok planHash, s)
  | .beforeMutation, s => (.ok (), s)
  | .apply operations _, s => ((operations.map fun op => ⟨op.sanitizedID, .succeeded, ""⟩, none), s)

/-- The rule of the custom resource definition: the spec of a plan is immutable. -/
def SpecImmutable (s : PlanStore) (object : ChangePlan) : Prop :=
  ∀ o ∈ s.objects, o.name = object.name → object.spec.plan = o.spec.plan

/-- What other actors do: any API call, where updates of the object itself are `Admitted`. -/
inductive PlanEdit (Admitted : PlanStore → ChangePlan → Prop) : PlanStore → PlanStore → Prop
  | create (s : PlanStore) (draft : ChangePlan) : PlanEdit Admitted s (s.create draft {}).2
  | update (s : PlanStore) (object : ChangePlan) (h : Admitted s object) : PlanEdit Admitted s (s.update object).2
  | updateStatus (s : PlanStore) (object : ChangePlan) : PlanEdit Admitted s (s.updateStatus object).2
  | delete (s : PlanStore) (name : String) (version : Nat) : PlanEdit Admitted s (s.delete name version).2

/-- What users do with plans: they edit metadata such as the approval, and delete plans. -/
inductive UserEdit : PlanStore → PlanStore → Prop
  | annotate (s : PlanStore) (object : ChangePlan) (h : SpecImmutable s object) : UserEdit s (s.update object).2
  | delete (s : PlanStore) (name : String) (version : Nat) : UserEdit s (s.delete name version).2

/-- A runner that applies cycles of one target, one after the other, over plans that users edit. -/
def cycleSystem (dr : DocumentRuntime) (unmarshal : List Char → Option Document) (targetName : String) :
    System Unit PlanCall PlanAnswer PlanStore where
  exec := planExec
  programs _ p := ∃ cfg plan, plan.document.target.name = targetName ∧
    p = (Runner.applyPrepared dr unmarshal cfg plan).run.discard
  env := UserEdit

end FortigateDns
