import FortigateDns.Spec.Claim
import FortigateDns.Spec.Client
import FortigateDns.Spec.Document

/-!
# Change plan objects

`internal/plan/crd.go` and the pure part of `internal/plan/store.go`: the object that a plan is
persisted as, its phases, its name, and the check of a stored object against the canonical
document it carries. Decoding the document is `json.Unmarshal`, which is a parameter: nothing
here depends on what it does with texts that are not canonical.
-/

namespace FortigateDns

open Go Conc

/-- `ChangePlanPhase`; a plan whose status was never written has none. -/
inductive PlanPhase
  | unset | pendingApproval | approved | applying | succeeded | failed | stale | interrupted
  deriving DecidableEq, Repr

/-- The plan is not applied any more. -/
def terminalPlanPhase : PlanPhase → Bool
  | .succeeded | .failed | .stale | .interrupted => true
  | .unset | .pendingApproval | .approved | .applying => false

/-- The summary of an operation. -/
structure PlanOperation where
  id : String
  type : String
  record : RecordKey
  ttl : Int
  status : String
  providerID : String
  prerequisites : List String
  deriving DecidableEq, Repr

/-- `FortiGateDNSChangePlanSpec`. The map of resource versions is the list of its entries by key. -/
structure ChangePlanSpec where
  schemaVersion : String
  targetRef : String
  planHash : String
  canonicalDocument : List Char
  providerRevision : String
  discoveryGeneration : Int
  policyGeneration : Int
  ownershipResourceVersions : List (String × String)
  operations : List PlanOperation
  expiresAt : Option Nat
  deriving DecidableEq, Repr

/-- What a write of the object itself covers: the spec and the metadata that the controller
reads. An approval that is missing is the empty text. -/
structure PlanContent where
  plan : ChangePlanSpec
  approval : String := ""
  targetLabel : String := ""
  generation : Nat := 0
  creationTimestamp : Nat := 0
  deriving DecidableEq, Repr

/-- `v1alpha1.OperationOutcome`. -/
structure OutcomeSummary where
  operationID : String
  result : String
  reason : String
  deriving DecidableEq, Repr

/-- `FortiGateDNSChangePlanStatus`. -/
structure PlanStatus where
  phase : PlanPhase := .unset
  observedGeneration : Nat := 0
  outcomes : List OutcomeSummary := []
  completedAt : Option Nat := none
  deriving DecidableEq, Repr

/-- `FortiGateDNSChangePlan`. -/
abbrev ChangePlan := Object PlanContent PlanStatus

/-- The plans of one namespace. -/
abbrev PlanStore := Store PlanContent PlanStatus

/-- Why `ErrApprovalRequired` is returned. -/
inductive ApprovalRefusal
  | phase (phase : PlanPhase)
  | expired
  | missing
  | mismatch
  | identityChanged
  deriving DecidableEq, Repr

/-- Why an apply ended early. -/
inductive ProviderError
  | interrupted | failed
  deriving DecidableEq, Repr

/-- The errors of the plan store and of `applyPrepared`. -/
inductive PlanError
  | store (err : StoreError)
  | document (err : DocumentError)
  | unsupportedSchema (schema : String)
  | undecodable
  | notCanonical
  | hashMismatch
  | preconditionSummary
  | operationSummary
  | noRecordSummary (id : String)
  | severalTargets (id : String)
  | duplicateOwnership (key : String)
  | approvalRequired (refusal : ApprovalRefusal)
  | nameCollision (name : String)
  | negativeRetention
  | approvedHashRequired
  | approvedHashMismatch
  | planOutput
  | canceled
  | prepare
  | preconditionDrift
  | beforeMutation
  | apply (provider : Option ProviderError) (invalidResults : Bool)
  deriving DecidableEq, Repr

/-- Characters that labels do not allow become dashes. -/
def labelValue (value : String) : String :=
  let keep := fun c : Char => 'a' ≤ c ∧ c ≤ 'z' ∨ '0' ≤ c ∧ c ≤ '9' ∨ c = '-' ∨ c = '.'
  let chars := (toLower (trimSpace value)).toList.map fun c => if keep c then c else '-'
  let result := trimBoth (fun c => c = '-' ∨ c = '.') chars
  if result = [] then "target" else String.ofList result

/-- `planObjectName`, for a document with the identifier `hash`. -/
def planObjectName (targetName hash : String) : String :=
  let label := (labelValue targetName).toList
  let label := if 45 < label.length then trimBoth (fun c => c = '-') (label.take 45) else label
  String.ofList (label ++ '-' :: hash.toList.take 12)

/-- The time tells plans of one hash apart. -/
def recurringPlanObjectName (targetName hash : String) (now : Nat) : String :=
  let base := (planObjectName targetName hash).toList
  let suffix := formatInt36 now
  let base := if 63 < base.length + 1 + suffix.length then trimBoth (fun c => c = '-')
    (base.take (63 - 1 - suffix.length))
    else base
  String.ofList (base ++ '-' :: suffix)

/-- The version that plans are stored in. -/
def documentSchemaVersion : String := "v1alpha1"

/-- The key of a claim in `OwnershipResourceVersions`. -/
def OwnershipPrecondition.key (claim : OwnershipPrecondition) : String :=
  if claim.claimNamespace ≠ "" then claim.claimNamespace ++ "/" ++ claim.name else claim.name

/-- The loop over the ownership preconditions; `seen` are the entries so far. -/
def ownershipResourceVersions (seen : List (String × String)) :
    List OwnershipPrecondition → Except PlanError (List (String × String))
  | [] => .ok (seen.insertionSort fun a b => a.1 ≤ b.1)
  | claim :: rest =>
    if seen.any fun entry => entry.1 == claim.key then .error (.duplicateOwnership claim.key)
    else ownershipResourceVersions ((claim.key, claim.resourceVersion) :: seen) rest

/-- The summary of one operation. -/
def summarizeOperation (prerequisites : List PrerequisiteEdge) (operation : SanitizedOperation) :
    Except PlanError PlanOperation :=
  match operation.desired.or operation.current with
  | none => .error (.noRecordSummary operation.id)
  | some record =>
    if 1 < record.targets.length then .error (.severalTargets operation.id)
    else
      let requires := (prerequisites.filter fun edge => edge.operationID = operation.id).map
        PrerequisiteEdge.requiresOperationID
      .ok
        { id := operation.id
          type := toLower (trimSpace operation.type)
          record := ⟨record.dnsName, record.recordType, record.targets.headD ""⟩
          ttl := record.ttl
          status := if record.disabled then "disable" else "enable"
          providerID := record.providerID
          prerequisites := sortStrings requires }

section

variable (dr : DocumentRuntime)

/-- The first operation without a record is an error. -/
def summarizeOperations (document : Document) : Except PlanError (List PlanOperation) := do
  let operations ← document.operations.mapM (summarizeOperation document.prerequisites)
  return dr.sortBy PlanOperation.id operations

/-- A result of the document package. -/
def ofDocument {α : Type} : Except DocumentError α → Except PlanError α
  | .ok a => .ok a
  | .error err => .error (.document err)

/-- The spec that `NewChangePlanObject` writes. -/
def newChangePlanSpec (document : Document) (expiresAt : Option Nat) : Except PlanError ChangePlanSpec := do
  let canonical ← ofDocument (document.canonicalJSON dr)
  let planHash ← ofDocument (document.id dr)
  let operations ← summarizeOperations dr document
  let resourceVersions ← ownershipResourceVersions [] document.preconditions.ownership
  return {
    schemaVersion := documentSchemaVersion
    targetRef := document.target.name
    planHash := planHash
    canonicalDocument := canonical
    providerRevision := document.preconditions.provider.revision
    discoveryGeneration := document.preconditions.discovery.generation
    policyGeneration := document.preconditions.policy.generation
    ownershipResourceVersions := resourceVersions
    operations := operations
    expiresAt := expiresAt }

/-- `NewChangePlanObject`, with the label that `PersistCurrent` adds. -/
def newChangePlanObject (objectNamespace name : String) (document : Document) (expiresAt : Option Nat) :
    Except PlanError ChangePlan := do
  let spec ← newChangePlanSpec dr document expiresAt
  return {
    name := name
    objectNamespace := objectNamespace
    uid := 0
    resourceVersion := 0
    finalizers := []
    deleting := false
    spec := { plan := spec, targetLabel := labelValue document.target.name }
    status := { phase := .pendingApproval } }

/-- A stored plan that was changed is an error. -/
def documentFromChangePlan (unmarshal : List Char → Option Document) (object : ChangePlan) :
    Except PlanError Document := do
  let spec := object.spec.plan
  if spec.schemaVersion ≠ documentSchemaVersion then throw (.unsupportedSchema spec.schemaVersion)
  match unmarshal spec.canonicalDocument with
  | none => throw .undecodable
  | some document =>
    let canonical ← ofDocument (document.canonicalJSON dr)
    if canonical ≠ spec.canonicalDocument then throw .notCanonical
    let planHash ← ofDocument (document.id dr)
    if planHash ≠ spec.planHash then throw .hashMismatch
    if spec.targetRef ≠ document.target.name ∨
        spec.providerRevision ≠ document.preconditions.provider.revision ∨
        spec.discoveryGeneration ≠ document.preconditions.discovery.generation ∨
        spec.policyGeneration ≠ document.preconditions.policy.generation then throw .preconditionSummary
    let expected ← newChangePlanSpec dr document spec.expiresAt
    if expected.ownershipResourceVersions ≠ spec.ownershipResourceVersions ∨
      expected.operations ≠ spec.operations then
      throw .operationSummary
    return document

/-- One entry of `summarizeOutcomes`. The reasons are ASCII texts, so bytes are characters. -/
def summarizeOutcome (outcome : OperationOutcome) : OutcomeSummary where
  operationID := outcome.operationID
  result :=
    match outcome.result with
    | .succeeded => "applied"
    | .blocked => "skipped"
    | .failed => "failed"
  reason := String.ofList (outcome.reason.toList.take 64)

/-- Sorted by operation. -/
def summarizeOutcomes (outcomes : List OperationOutcome) : List OutcomeSummary :=
  dr.sortBy OutcomeSummary.operationID (outcomes.map summarizeOutcome)

end

/-- The order that `Prune` sorts completed plans by: the newest first, then by name, backwards. -/
def newerPlan (a b : ChangePlan) : Bool :=
  if a.spec.creationTimestamp = b.spec.creationTimestamp then b.name ≤ a.name
  else b.spec.creationTimestamp < a.spec.creationTimestamp

end FortigateDns
