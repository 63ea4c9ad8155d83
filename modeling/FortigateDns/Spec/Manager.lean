import FortigateDns.Spec.Repository

/-!
# The ownership manager

`internal/ownership/manager.go`: the two-phase create, the authorization of mutations, the
adoption of rows and the life cycle of claims, as programs over the repository's.
-/

namespace FortigateDns

open Go Conc

namespace Manager

/-- `Manager.confirmObserved`. The result is `none` when the snapshot settles nothing and the
claim is not confirmed. -/
def confirmObserved (claim : Claim) (targetName : String) (endpoint : Endpoint) (snapshot : Snapshot) :
    Action (Option Claim) := do
  let found ← checked (inspectRecord snapshot.records targetName endpoint "")
  if found.reused ∨ 1 < found.exact.length ∨ 0 < found.divergent.length then do
    let _ ← attempt (Repository.markConflict claim.name claim.resourceVersion snapshot.revision)
    throw .providerConflict
  else
    match found.exact with
    | [] =>
      if claim.status.phase = .confirmed then do
        let _ ← attempt (Repository.markOrphaned claim.name claim.resourceVersion snapshot.revision)
        throw .claimNotDestructive
      else pure none
    | row :: _ =>
      if trimSpace row.providerID = "" ∨ (providerRecordsByID snapshot.records row.providerID).length ≠ 1 then do
        let _ ← attempt (Repository.markConflict claim.name claim.resourceVersion snapshot.revision)
        throw .providerConflict
      else do
        let confirmed ← Repository.confirm claim.name claim.resourceVersion row.providerID snapshot.revision
        pure (some confirmed)

/-- The relist after a POST; when both have failed, the error of the POST counts. -/
def relist (created : Except OwnershipError Unit) : Action Snapshot := do
  let after ← attempt Repository.validSnapshot
  match after, created with
  | .ok snapshot, _ => pure snapshot
  | .error _, .error err => throw err
  | .error err, .ok _ => throw err

/-- The part of `ReconcileCreate` after the POST. -/
def confirmCreated (name : String) (request : Repository.ReserveRequest)
    (created : Except OwnershipError Unit) : Action Claim := do
  let after ← relist created
  let current ← Repository.get name
  match ← confirmObserved current request.targetName request.endpoint after with
  | some confirmed => pure confirmed
  | none => do
    checked created
    throw .notObservable

/-- The claim, then the record, then its confirmation. -/
def reconcileCreate (request : Repository.ReserveRequest) : Action Claim := do
  let request := { request with hasSnapshot := true }
  let claim ← Repository.reserve request
  let snapshot ← Repository.validSnapshot
  match ← confirmObserved claim request.targetName request.endpoint snapshot with
  | some confirmed => pure confirmed
  | none =>
    if claim.status.phase ≠ .reserved then throw .claimConflict
    else do
      -- no part of the request: the identity that the claim reserves
      let identity ← checked (identityFor request.targetName request.endpoint)
      let created ← Act.call (Call.post request.endpoint.normalize identity)
      confirmCreated claim.name request created

/-- Whether claims count. -/
inductive OwnershipMode
  | exclusive | shared | unknown
  deriving DecidableEq, Repr

/-- A claim as the plan has seen it. -/
structure OwnershipPrecondition where
  claimNamespace : String := ""
  name : String := ""
  uid : Nat := 0
  resourceVersion : Nat := 0
  providerID : String := ""
  fingerprint : String := ""
  phase : Phase := .none
  deriving DecidableEq, Repr

/-- What has to hold for a record to be changed. -/
structure MutationPrecondition where
  mode : OwnershipMode
  targetName : String
  controllerID : String
  providerRevision : String
  ownership : OwnershipPrecondition

/-- `PreconditionForClaim`, for a claim that was found. -/
def preconditionForClaim (mode : OwnershipMode) (claim : Claim) (providerRevision : String) :
    MutationPrecondition where
  mode := mode
  targetName := claim.spec.targetRef
  controllerID := claim.spec.controllerID
  providerRevision := providerRevision
  ownership :=
    { claimNamespace := claim.objectNamespace, name := claim.name, uid := claim.uid
      resourceVersion := claim.resourceVersion, providerID := claim.spec.providerID
      fingerprint := claim.spec.fingerprint, phase := claim.status.phase }

/-- The operation changes a row that is there. -/
def existingRecordMutation : OperationType → Bool
  | .update | .replace | .deactivate | .delete => true
  | .create | .conflict => false

/-- The comparison of a claim with what a precondition recorded. -/
def claimUnchanged (claim : Claim) (precondition : MutationPrecondition) : Bool :=
  claim.spec.targetRef == trimSpace precondition.targetName &&
    claim.spec.controllerID == trimSpace precondition.controllerID &&
    claim.spec.providerID != "" && claim.spec.providerID == precondition.ownership.providerID &&
    claim.spec.fingerprint != "" && claim.spec.fingerprint == precondition.ownership.fingerprint &&
    (precondition.ownership.claimNamespace == "" ||
      claim.objectNamespace == precondition.ownership.claimNamespace) &&
    (precondition.ownership.uid == 0 || claim.uid == precondition.ownership.uid)

/-- The comparison of the row under the recorded provider ID with the claim. -/
def rowUnchanged (claim : Claim) (precondition : MutationPrecondition) (row : Endpoint) : Bool :=
  fingerprint precondition.targetName row == .ok precondition.ownership.fingerprint &&
    match identityFor precondition.targetName row with
    | .error _ => false
    | .ok identity => claim.name == claimName identity && claim.spec.record == recordKey identity

/-- Claim and row are as planned. -/
def authorizeMutation (operationType : OperationType) (precondition : MutationPrecondition)
    (snapshot : Snapshot) :
    Action Unit :=
  match precondition.mode with
  | .exclusive => pure ()
  | .unknown => throw .invalidRequest
  | .shared =>
    if !existingRecordMutation operationType then throw .invalidRequest
    else if !validateSnapshot snapshot then throw .providerSnapshot
    else if precondition.providerRevision = "" ∨ snapshot.revision ≠ precondition.providerRevision then
      throw .providerDrift
    else if precondition.ownership.phase ≠ .confirmed then throw .claimNotDestructive
    else do
      let claim ← Repository.revalidateUnique precondition.ownership.name precondition.ownership.resourceVersion
      if claim.status.phase ≠ .confirmed then throw .claimNotDestructive
      else if !claimUnchanged claim precondition then throw .claimConflict
      else
        match providerRecordsByID snapshot.records precondition.ownership.providerID with
        | [row] =>
          if rowUnchanged claim precondition row then pure ()
          else do
            let _ ← attempt (Repository.markConflict claim.name claim.resourceVersion snapshot.revision)
            throw .providerConflict
        | _ => do
          let _ ← attempt (Repository.markConflict claim.name claim.resourceVersion snapshot.revision)
          throw .providerConflict

/-- `Manager.ExecuteMutation`, with the provider request as its last argument. -/
def executeMutation (operationType : OperationType) (precondition : MutationPrecondition) (mutate : Action Unit) :
    Action Unit := do
  let result ← Act.call Call.snapshot
  let snapshot ← checked result
  authorizeMutation operationType precondition snapshot
  let canceled ← Act.call Call.canceled
  if canceled then throw .canceled else mutate

/-- Only by an approved plan. -/
def adopt (request : Repository.AdoptionRequest) : Action Claim :=
  if request.planHash = "" ∨ request.planHash ≠ request.approvedPlanHash then throw .approvalRequired
  else do
    let snapshot ← Repository.validSnapshot
    if request.providerRevision = "" ∨ snapshot.revision ≠ request.providerRevision then throw .providerDrift
    else do
      let found ← checked (inspectRecord snapshot.records request.targetName request.endpoint request.providerID)
      match found.exact with
      | [row] =>
        if found.reused ∨ found.divergent ≠ [] ∨ row.providerID ≠ request.providerID then throw .providerConflict
        else Repository.adopt request
      | _ => throw .providerConflict

/-- Marks a claim as conflicting because of what the provider shows. -/
def failConflict (claim : Claim) (revision : String) : Action Claim := do
  let _ ← Repository.markConflict claim.name claim.resourceVersion revision
  throw .providerConflict

/-- The phase follows what the device shows. -/
def reconcileClaim (name : String) (expectedVersion : Nat) (targetName : String) (snapshot : Snapshot) :
    Action Claim :=
  if !validateSnapshot snapshot then throw .providerSnapshot
  else do
    let claim ← Repository.revalidateUnique name expectedVersion
    let found := inspectClaimRecords snapshot.records targetName claim
    if found.reused ∨ 1 < found.exact.length ∨
      0 < found.divergent.length then failConflict claim snapshot.revision
    else
      match found.exact with
      | [] =>
        if claim.status.phase = .reserved then pure claim
        else Repository.markOrphaned claim.name claim.resourceVersion snapshot.revision
      | row :: _ =>
        if row.providerID = "" then failConflict claim snapshot.revision
        else if claim.spec.providerID ≠ "" ∧ row.providerID ≠ claim.spec.providerID then
          failConflict claim snapshot.revision
        else Repository.confirm claim.name claim.resourceVersion row.providerID snapshot.revision

/-- Only when the row is gone. -/
def releaseClaimFinalizer (name : String) (expectedVersion : Nat) (targetName : String) (snapshot : Snapshot) :
    Action Claim :=
  if !validateSnapshot snapshot then throw .providerSnapshot
  else do
    let claim ← Repository.revalidateUnique name expectedVersion
    if claim.spec.providerID ≠ "" ∧ providerRecordsByID snapshot.records claim.spec.providerID ≠ [] then
      throw .claimNotDestructive
    else if (inspectClaimRecords snapshot.records targetName claim).exact ≠ [] then throw .claimNotDestructive
    else Repository.releaseFinalizer claim.name claim.resourceVersion

/-- The finalizer first. -/
def releaseAndDeleteClaim (name : String) (expectedVersion : Nat) (targetName : String) (snapshot : Snapshot) :
    Action Unit := do
  let released ← releaseClaimFinalizer name expectedVersion targetName snapshot
  Repository.deleteClaim released.name released.resourceVersion

end Manager

end FortigateDns
