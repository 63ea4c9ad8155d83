import FortigateDns.Spec.Table

/-!
# The FortiGate client

`internal/fortigate/client.go`: what one operation sends to the device, and
`ApplyWithResults`, the loop that executes a plan. What the network, the clock and the
caller decide is an input: `Turn` holds it for one operation of the plan, and every theorem
is about all of them. The device is a list of rows that a request changes when it takes
effect, which a failed request may do as well.
-/

namespace FortigateDns

open Go

/-- `fortiRecord`, the fields a write fills. -/
structure FortiRecord where
  hostname : String := ""
  type : String := ""
  ttl : Int := 0
  ip : String := ""
  ipv6 : String := ""
  canonicalName : String := ""
  status : String := ""
  deriving DecidableEq, Repr

/-- The errors an operation can end with. -/
inductive ClientError
  | missingProviderID
  | invalidProviderID
  | unknownOperation
  | unsupportedRecordType (recordType : String)
  | zoneApexUnsupported (name : String)
  | outsideZone (name zone : String)
  | requestFailed
  deriving DecidableEq, Repr

/-- `providerIDPattern`, `^[0-9]+$`. -/
def providerIDPattern (id : String) : Bool := id.toList ≠ [] && id.toList.all fun c => '0' ≤ c && c ≤ '9'

/-- The ID by which request paths address a row. -/
def rowID (row : Endpoint) : String := trimSpace row.providerID

/-- The identifier has to be fit for a path. -/
def currentProviderID (operation : Operation) : Except ClientError String :=
  let id := rowID operation.current
  if id = "" then .error .missingProviderID
  else if providerIDPattern id then .ok id
  else .error .invalidProviderID

/-- The device stores names without the zone. -/
def relativeHostname (name zone : String) : Except ClientError String :=
  let name := normalizeDNSName name
  let zone := normalizeDNSName zone
  if name = zone then .error (.zoneApexUnsupported name)
  else
    match cutSuffix name ("." ++ zone) with
    | none => .error (.outsideZone name zone)
    | some relative => if relative = "" then .error (.outsideZone name zone) else .ok relative

/-- Only the first target is stored. -/
def endpointToRecord (endpoint : Endpoint) (zone : String) : Except ClientError FortiRecord := do
  let endpoint := endpoint.normalize
  if endpoint.recordType ≠ recordA ∧ endpoint.recordType ≠ recordAAAA ∧ endpoint.recordType ≠ recordCNAME then
    throw (.unsupportedRecordType endpoint.recordType)
  let hostname ← relativeHostname endpoint.dnsName zone
  let record : FortiRecord :=
    { hostname := hostname, type := endpoint.recordType, ttl := endpoint.ttl
      status := if endpoint.disabled then "disable" else "enable" }
  match endpoint.targets with
  | [] => return record
  | target :: _ =>
    if endpoint.recordType = recordAAAA then return { record with ipv6 := target }
    -- the trailing dot makes the target absolute
    else if endpoint.recordType = recordCNAME then
      return { record with canonicalName := normalizeDNSName target ++ "." }
    else return { record with ip := target }

/-- A write request. A POST or PUT carries the body and, beside it, the record that the body
encodes and that the device stores. -/
inductive Request
  | post (body : FortiRecord) (record : Endpoint)
  | put (id : String) (body : FortiRecord) (record : Endpoint)
  | delete (id : String)
  deriving DecidableEq, Repr

/-- The row a request path addresses. -/
def addresses (id : String) (row : Endpoint) : Bool := rowID row == id

/-- What a request does to the device when it takes effect; `newID` is the device's choice
for a new row. -/
def Request.perform (newID : String) (device : List Endpoint) : Request → List Endpoint
  | .post _ record => device ++ [{ record with providerID := newID }]
  | .put id _ record => device.map fun row => if addresses id row then overwrite row record else row
  | .delete id => device.filter fun row => !addresses id row

/-- `doJSON` repeats every request but a POST. -/
def Request.retryable : Request → Bool
  | .post _ _ => false
  | .put _ _ _ | .delete _ => true

/-- How one HTTP exchange ends for `doJSON`: with success, or with an error that is final or
transient and that tells nothing about whether the device did what it was asked. -/
inductive Exchange
  | success
  | failure (tookEffect transient : Bool)
  deriving DecidableEq, Repr

/-- One request on its way to the device: for which operation, and the rows of the device at
that moment. -/
structure Sent where
  operation : Operation
  request : Request
  newID : String
  device : List Endpoint
  deriving DecidableEq, Repr

/-- What an operation leaves: an error or none, the device, and what was sent. -/
structure Applied where
  err : Option ClientError
  device : List Endpoint
  sent : List Sent

/-- `doJSON` with `attempts` attempts left. -/
def doJSON (operation : Operation) (request : Request) (newID : String) (exchange : Nat → Exchange) :
    Nat → List Endpoint → Applied
  | 0, device => ⟨some .requestFailed, device, []⟩
  | attempts + 1, device =>
    let sent : Sent := ⟨operation, request, newID, device⟩
    match exchange attempts with
    | .success => ⟨none, request.perform newID device, [sent]⟩
    | .failure tookEffect transient =>
      let device := if tookEffect then request.perform newID device else device
      if request.retryable && transient then
        let rest := doJSON operation request newID exchange attempts device
        { rest with sent := sent :: rest.sent }
      else ⟨some .requestFailed, device, [sent]⟩

/-- The device publishes the record of an endpoint. -/
def Holds (device : List Endpoint) (e : Endpoint) : Prop := ∃ r ∈ device, r.equalRecord e = true

instance (device : List Endpoint) (e : Endpoint) : Decidable (Holds device e) := by
  unfold Holds; infer_instance

/-- What the client reads of its configuration. -/
structure ClientConfig where
  zone : String
  retries : Nat

/-- The request that `applyOne` builds. -/
def buildRequest (cfg : ClientConfig) (operation : Operation) : Except ClientError Request :=
  match operation.type with
  | .create => do
    let body ← endpointToRecord operation.desired cfg.zone
    return .post body operation.desired
  | .update | .deactivate | .replace => do
    let id ← currentProviderID operation
    let body ← endpointToRecord operation.desired cfg.zone
    return .put id body operation.desired
  | .delete => do
    let id ← currentProviderID operation
    return .delete id
  | .conflict => .error .unknownOperation

/-- What is decided outside the client while one operation of the plan is handled: whether
the context is canceled, whether `CheckBeforeOperation` refuses, how the exchanges end and
which ID a new row gets. -/
structure Turn where
  canceled : Bool := false
  revoked : Bool := false
  exchange : Nat → Exchange := fun _ => .success
  newID : String := ""

/-- One operation, with its retries. -/
def applyOne (cfg : ClientConfig) (operation : Operation) (turn : Turn) (device : List Endpoint) : Applied :=
  match buildRequest cfg operation with
  | .error err => ⟨some err, device, []⟩
  | .ok request => doJSON operation request turn.newID turn.exchange (cfg.retries + 1) device

/-- Cleanup of the name waits for the operation. -/
def isCleanupPrerequisite : OperationType → Bool
  | .create | .update | .replace => true
  | .delete | .deactivate | .conflict => false

/-- What became of an operation. -/
inductive ApplyOutcome
  | succeeded | failed | blocked
  deriving DecidableEq, Repr

/-- The outcome with its reason. -/
structure OperationOutcome where
  operationID : String
  result : ApplyOutcome
  reason : String
  deriving DecidableEq, Repr

/-- The errors `ApplyWithResults` joins. -/
inductive ApplyError
  | canceled
  | revoked
  | operation (operation : Operation) (err : ClientError)
  deriving DecidableEq, Repr

/-- The variables of the loop, and beside them the device and the requests sent so far. -/
structure ApplyState where
  outcomes : List OperationOutcome := []
  errs : List ApplyError := []
  failedPrerequisiteGroups : List String := []
  device : List Endpoint
  sent : List Sent := []
  deriving DecidableEq, Repr

section

variable (cfg : ClientConfig) (operationID : Operation → String) (dryRun : Bool)

/-- Outcomes are listed in order. -/
def ApplyState.recordOutcome (st : ApplyState) (operation : Operation) (result : ApplyOutcome)
    (reason : String) : ApplyState :=
  { st with outcomes := st.outcomes ++ [⟨operationID operation, result, reason⟩] }

/-- The two exits of the loop: the rest of the plan is blocked. -/
def ApplyState.stop (st : ApplyState) (remaining : List Operation) (err : ApplyError) (reason : String) :
    ApplyState :=
  { st with
    errs := if st.errs = [] then [err] else st.errs
    outcomes := st.outcomes ++ remaining.map fun operation => ⟨operationID operation, .blocked, reason⟩ }

/-- The end of an iteration, once `applyOne` has returned. -/
def ApplyState.record (st : ApplyState) (operation : Operation) (applied : Applied) : ApplyState :=
  let st := { st with device := applied.device, sent := st.sent ++ applied.sent }
  match applied.err with
  | none => st.recordOutcome operationID operation .succeeded ""
  | some err =>
    { st with
      failedPrerequisiteGroups :=
        if isCleanupPrerequisite operation.type then
          operation.desired.mutationGroupKey :: st.failedPrerequisiteGroups
        else st.failedPrerequisiteGroups
      errs := st.errs ++ [.operation operation err] : ApplyState }.recordOutcome operationID operation .failed
        "provider-request-failed"

/-- The loop of `ApplyWithResults`; the operation at hand is number `index` of the plan. -/
def applyLoop (turn : Nat → Turn) : Nat → List Operation → ApplyState → ApplyState
  | _, [], st => st
  | index, operation :: rest, st =>
    if (turn index).canceled then st.stop operationID (operation :: rest) .canceled "context-canceled"
    else if operation.type = .conflict then
      applyLoop turn (index + 1) rest (st.recordOutcome operationID operation .blocked "planning-conflict")
    else if dryRun then
      applyLoop turn (index + 1) rest (st.recordOutcome operationID operation .blocked "dry-run")
    else if (turn index).revoked then st.stop operationID (operation :: rest) .revoked "authorization-revoked"
    else if isCleanupOperation operation.type &&
        st.failedPrerequisiteGroups.contains operation.current.mutationGroupKey then
      applyLoop turn (index + 1) rest (st.recordOutcome operationID operation .blocked "prerequisite-failed")
    else
      applyLoop turn (index + 1) rest
        (st.record operationID operation (applyOne cfg operation (turn index) st.device))

/-- `ApplyWithResults` on a device with the rows `device`. -/
def applyWithResults (operations : List Operation) (turn : Nat → Turn) (device : List Endpoint) : ApplyState :=
  applyLoop cfg operationID dryRun turn 0 operations { device := device }

end

end FortigateDns
