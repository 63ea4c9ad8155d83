import FortigateDns.Spec.Client
import FortigateDns.Spec.World

/-!
# The shared-zone client

`cmd/fortigate-external-dns/shared.go`: the client of a target in shared mode. It labels the
rows that this controller's confirmed claims cover, records the claims a plan rests on, and
executes a plan through the ownership manager.
-/

namespace FortigateDns

open Go Conc

/-- `sharedDNSClient`, without its handles. -/
structure SharedClient where
  clientNamespace : String
  targetName : String
  controller : String

namespace SharedClient

/-- `claimsByName[name]`: a later claim of a name replaces an earlier one. -/
def claimByName (claims : List Claim) (name : String) : Option Claim :=
  claims.reverse.find? fun claim => claim.name = name

/-- The label of a row whose claim is `claim`. -/
def labelRow (c : SharedClient) (claim : Claim) (row : Endpoint) : Endpoint :=
  { row with
    ownerID := c.controller
    source := match claim.spec.sources with
      | source :: _ => source
      | [] => row.source }

/-- One row of `bindConfirmedOwnership`. -/
def bindRow (c : SharedClient) (claims : List Claim) (row : Endpoint) : Endpoint :=
  match identityFor c.targetName row with
  | .error _ => row
  | .ok identity =>
    match claimByName claims (claimName identity) with
    | none => row
    | some claim =>
      if claim.status.phase = .confirmed ∧ claim.spec.controllerID = c.controller ∧
          claimMatches claim c.targetName row then c.labelRow claim row
      else row

/-- Rows with a confirmed claim get its owner. -/
def bindConfirmedOwnership (c : SharedClient) (records : List Endpoint) : Action (List Endpoint) := do
  let claims ← Repository.list
  pure (records.map (c.bindRow claims))

/-- `sharedProvider.Snapshot`, and the underlying `ListRecordsWithRevision`. -/
def providerSnapshot : Action Snapshot := do
  let result ← Act.call Call.snapshot
  checked result

/-- The rows with their owners. -/
def listRecordsWithRevision (c : SharedClient) : Action (List Endpoint × String) := do
  let snapshot ← providerSnapshot
  let records ← c.bindConfirmedOwnership snapshot.records
  pure (records, snapshot.revision)

/-- The loop of `PlanOwnershipPreconditions`; `seen` are the names of the claims read so far. -/
def preconditionsOf (c : SharedClient) (providerRevision : String) :
    List String → List Operation → Action (List Manager.OwnershipPrecondition)
  | _, [] => pure []
  | seen, operation :: rest =>
    if operation.type = .create ∨ operation.type = .conflict then c.preconditionsOf providerRevision seen rest
    else do
      let identity ← checked (identityFor c.targetName operation.current)
      let name := claimName identity
      if seen.contains name then c.preconditionsOf providerRevision seen rest
      else do
        let claim ← Repository.get name
        let others ← c.preconditionsOf providerRevision (name :: seen) rest
        pure ((Manager.preconditionForClaim .shared claim providerRevision).ownership :: others)

/-- The claims of the rows that the plan changes. -/
def planOwnershipPreconditions (c : SharedClient) (operations : List Operation) (providerRevision : String) :
    Action (List Manager.OwnershipPrecondition) :=
  if providerRevision = "" then throw .providerSnapshot
  else c.preconditionsOf providerRevision [] operations

/-- The rows with the provider ID. -/
def providerRowsByID (records : List Endpoint) (providerID : String) : List Endpoint :=
  records.filter fun record => record.providerID == providerID

/-- The only row with the ID and the fingerprint. -/
def exactProviderRecord (records : List Endpoint) (providerID targetName : String) (desired : Endpoint) :
    Except OwnershipError Endpoint :=
  match fingerprint targetName desired with
  | .error err => .error err
  | .ok wanted =>
    match (providerRowsByID records providerID).filter fun record =>
      fingerprint targetName record == .ok wanted with
    | [record] => .ok record
    | _ => .error .providerConflict

/-- The request to the provider's client for one operation. -/
def mutate (operation : Operation) : Action Unit := do
  let result ← Act.call (Call.apply operation)
  checked result

/-- The end of `applyExisting`, once the mutation is through. -/
def settleExisting (c : SharedClient) (operation : Operation) (claim : Claim) : Action Unit := do
  let after ← providerSnapshot
  if operation.type = .delete then do
    let reconciled ← Manager.reconcileClaim claim.name claim.resourceVersion c.targetName after
    if reconciled.status.phase = .orphaned then
      Manager.releaseAndDeleteClaim reconciled.name reconciled.resourceVersion c.targetName after
    else pure ()
  else do
    let observed ← checked
      (exactProviderRecord after.records operation.current.providerID c.targetName operation.desired)
    let _ ← Repository.rebindConfirmed claim.name claim.resourceVersion c.targetName observed
      operation.current.providerID after.revision
    pure ()

/-- The claim is checked before and settled after. -/
def applyExisting (c : SharedClient) (operation : Operation) : Action Unit := do
  let identity ← checked (identityFor c.targetName operation.current)
  let claim ← Repository.get (claimName identity)
  let snapshot ← providerSnapshot
  let precondition := Manager.preconditionForClaim .shared claim snapshot.revision
  Manager.executeMutation operation.type precondition (mutate operation)
  c.settleExisting operation claim

/-- The request of a create. -/
def createRequest (c : SharedClient) (operation : Operation) : Repository.ReserveRequest where
  requestNamespace := c.clientNamespace
  targetName := c.targetName
  controllerID := c.controller
  endpoint := operation.desired
  sources := [operation.desired.source]
  hasSnapshot := false

/-- By the type of the operation. -/
def applyOne (c : SharedClient) (operation : Operation) : Action Unit :=
  match operation.type with
  | .create =>
    let source := operation.desired.source
    if source.apiVersion = "" ∨ source.kind = "" ∨ source.sourceNamespace = "" ∨ source.name = "" ∨
        source.uid = "" then throw .invalidRequest
    else do
      let _ ← Manager.reconcileCreate (c.createRequest operation)
      pure ()
  | .replace => throw .invalidRequest
  | .update | .deactivate | .delete => c.applyExisting operation
  | .conflict => pure ()

/-- Whether the claim that `recoverInterruptedClaim` has read may be completed. -/
def recoverableClaim (c : SharedClient) (operation : Operation) (identity : Identity) (claim : Claim) : Bool :=
  let desired := operation.desired
  claim.objectNamespace == c.clientNamespace && !claim.deleting && claim.spec.targetRef == c.targetName &&
    claim.spec.controllerID == c.controller && claim.spec.record == recordKey identity &&
    (match claim.status.phase with
      | .reserved => claimMatches claim c.targetName desired &&
          (claim.spec.providerID == "" || claim.spec.providerID == operation.current.providerID)
      | .confirmed => claim.spec.providerID == operation.current.providerID
      | _ => false) &&
    claim.spec.sources.any fun source => desired.source.uid != "" && source == desired.source

/-- The end of `recoverInterruptedClaim`, with the row that was observed. -/
def completeClaim (c : SharedClient) (operation : Operation) (claim : Claim) (snapshot : Snapshot)
    (observed : Endpoint) : Action Unit := do
  let revoked ← Act.call Call.revoked
  if revoked then throw .revoked
  else if claim.status.phase = .reserved then do
    let _ ← Manager.reconcileClaim claim.name claim.resourceVersion c.targetName snapshot
    pure ()
  else
    match fingerprint c.targetName observed with
    | .error _ => pure ()
    | .ok print =>
      if print = claim.spec.fingerprint then pure ()
      else do
        let _ ← Repository.rebindConfirmed claim.name claim.resourceVersion c.targetName observed
          operation.current.providerID snapshot.revision
        pure ()

/-- What cannot be recovered is left as it is. -/
def recoverInterruptedClaim (c : SharedClient) (operation : Operation) : Action Unit :=
  if operation.current.providerID = "" then pure ()
  else
    match identityFor c.targetName operation.current, identityFor c.targetName operation.desired with
    | .ok currentIdentity, .ok desiredIdentity =>
      if desiredIdentity ≠ currentIdentity then pure ()
      else do
        let claim ← Repository.get (claimName currentIdentity)
        if !c.recoverableClaim operation currentIdentity claim then pure ()
        else do
          let snapshot ← providerSnapshot
          if !snapshot.stable ∨ snapshot.revision = "" then pure ()
          else if (providerRowsByID snapshot.records operation.current.providerID).length ≠ 1 then pure ()
          else
            match exactProviderRecord snapshot.records operation.current.providerID c.targetName
                operation.desired with
            | .error _ => pure ()
            | .ok observed => c.completeClaim operation claim snapshot observed
    | _, _ => pure ()

/-- The variables of the loop of `ApplyWithResults`. -/
structure LoopState where
  outcomes : List OperationOutcome := []
  errs : List OwnershipError := []
  failedGroups : List String := []

section

variable (operationID : Operation → String)

/-- Appends one outcome. -/
def LoopState.record (st : LoopState) (operation : Operation) (result : ApplyOutcome)
    (reason : String) : LoopState :=
  { st with outcomes := st.outcomes ++ [⟨operationID operation, result, reason⟩] }

/-- The two exits of the loop: the rest of the plan is blocked. -/
def LoopState.stop (st : LoopState) (pending : List Operation) (err : OwnershipError) (reason : String) :
    LoopState :=
  { st with
    errs := st.errs ++ [err]
    outcomes := st.outcomes ++ pending.map fun operation => ⟨operationID operation, .blocked, reason⟩ }

/-- The end of an iteration whose `applyOne` has ended with `result`. -/
def LoopState.finish (st : LoopState) (operation : Operation) (result : Except OwnershipError Unit) : LoopState :=
  match result with
  | .ok _ => st.record operationID operation .succeeded ""
  | .error err =>
    let reason := if err = .canceled then "context-canceled" else "provider-request-failed"
    { st with
      errs := st.errs ++ [err]
      failedGroups := if isCleanupPrerequisite operation.type then
          operation.desired.mutationGroupKey :: st.failedGroups
        else st.failedGroups }.record operationID operation .failed reason

/-- The loop of `ApplyWithResults`. -/
def applyLoop (c : SharedClient) : List Operation → LoopState → Action LoopState
  | [], st => pure st
  | operation :: rest, st => do
    let canceled ← Act.call Call.canceled
    if canceled then pure (st.stop operationID (operation :: rest) .canceled "context-canceled")
    else do
      let revoked ← Act.call Call.revoked
      if revoked then pure (st.stop operationID (operation :: rest) .revoked "authorization-revoked")
      else if operation.type = .conflict then do
        let _ ← attempt (c.recoverInterruptedClaim operation)
        c.applyLoop rest (st.record operationID operation .blocked "planning-conflict")
      else if isCleanupOperation operation.type ∧ st.failedGroups.contains operation.current.mutationGroupKey then
        c.applyLoop rest (st.record operationID operation .blocked "prerequisite-failed")
      else do
        let result ← attempt (c.applyOne operation)
        c.applyLoop rest (st.finish operationID operation result)

/-- The provider client's `Apply` as a dry run, which only looks at the context. -/
def dryRunApply : List Operation → Action Unit
  | [] => pure ()
  | _ :: rest => do
    let canceled ← Act.call Call.canceled
    if canceled then throw .canceled else dryRunApply rest

/-- The outcomes of a dry run. -/
def dryRunOutcome (result : Except OwnershipError Unit) (operation : Operation) : OperationOutcome :=
  if operation.type = .conflict then ⟨operationID operation, .blocked, "planning-conflict"⟩
  else
    match result with
    | .ok _ => ⟨operationID operation, .blocked, "dry-run"⟩
    | .error _ => ⟨operationID operation, .failed, "provider-request-failed"⟩

/-- `ApplyWithResults`: the outcomes, and the errors that are joined. -/
def applyWithResults (c : SharedClient) (operations : List Operation) (dryRun : Bool) :
    Action (List OperationOutcome × List OwnershipError) :=
  if dryRun then do
    let result ← attempt (dryRunApply operations)
    let errs := match result with
      | .ok _ => []
      | .error err => [err]
    pure (operations.map (dryRunOutcome operationID result), errs)
  else do
    let st ← c.applyLoop operationID operations {}
    pure (st.outcomes, st.errs)

/-- One cycle: the rows are listed and labelled, `plan` plans from them, and the plan is applied. -/
def cycle (c : SharedClient) (plan : List Endpoint → List Operation) :
    Action (List OperationOutcome × List OwnershipError) := do
  let listed ← c.listRecordsWithRevision
  c.applyWithResults operationID (plan listed.1) false

end

end SharedClient

end FortigateDns
