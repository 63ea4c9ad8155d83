import FortigateDns.Conc.Prog
import FortigateDns.Spec.Claim

/-!
# The claim repository

`internal/ownership/repository.go` as programs: every access to the claim store, the provider
or the clock is a call, and other controllers may act between two calls. What a call returns
is decided elsewhere (`Spec/World.lean`).
-/

namespace FortigateDns

open Go Conc

/-- The calls to the outside: the claim store, the clock, the provider, and whether the
context is canceled or the authority to write revoked. A `post` also carries the identity its
record was reserved under, which the device does not see; `apply` executes one operation
through the provider's client. -/
inductive Call
  | get (name : String)
  | list
  | create (draft : Claim)
  | update (claim : Claim)
  | updateStatus (claim : Claim)
  | delete (name : String) (version : Nat)
  | now
  | snapshot
  | post (endpoint : Endpoint) (origin : Identity)
  | apply (operation : Operation)
  | canceled
  | revoked

/-- What a call is answered with. -/
@[reducible] def Answer : Call → Type
  | .get _ | .create _ | .update _ | .updateStatus _ => Except StoreError Claim
  | .list => Except StoreError (List Claim)
  | .delete _ _ => Except StoreError Unit
  | .now => Nat
  | .snapshot => Except OwnershipError Snapshot
  | .post _ _ | .apply _ => Except OwnershipError Unit
  | .canceled | .revoked => Bool

/-- A program of calls to the API and the device. -/
abbrev Action := Act Call Answer OwnershipError

/-- A lost race is a stale claim. -/
def translateWriteError : StoreError → OwnershipError
  | .conflict => .staleClaim
  | .alreadyExists => .claimConflict
  | .notFound | .failed => .store

/-- The result of a write, with its error translated. -/
def written {α : Type} : Except StoreError α → Action α
  | .ok a => pure a
  | .error err => throw (translateWriteError err)

/-- The result of a pure function that may fail. -/
def checked {α : Type} : Except OwnershipError α → Action α
  | .ok a => pure a
  | .error err => throw err

namespace Repository

/-- The result of a read. -/
def read {α : Type} : Except StoreError α → Action α
  | .ok a => pure a
  | .error .notFound => throw .claimNotFound
  | .error _ => throw .store

/-- One claim, by name. -/
def get (name : String) : Action Claim := do
  let result ← Act.call (Call.get name)
  read result

/-- All claims. -/
def list : Action (List Claim) := do
  let result ← Act.call Call.list
  read result

/-- The status that `transition` writes. -/
def nextStatus (claim : Claim) (phase : Phase) (providerRevision : String) (now : Option Nat) : Claim :=
  { claim with
    status :=
      { phase := phase
        observedProviderRevision := trimSpace providerRevision
        lastConfirmedTime := if phase = .confirmed then now else claim.status.lastConfirmedTime } }

/-- The clock, which is read only for a confirmation. -/
def confirmedTime (phase : Phase) : Action (Option Nat) :=
  if phase = .confirmed then do
    let now ← Act.call Call.now
    pure (some now)
  else pure none

/-- Writes a phase over the version that was checked. -/
def transition (name : String) (expectedVersion : Nat) (phase : Phase) (providerRevision : String) :
    Action Claim := do
  let claim ← get name
  if expectedVersion = 0 ∨ claim.resourceVersion ≠ expectedVersion then throw .staleClaim
  else do
    let now ← confirmedTime phase
    let result ← Act.call (Call.updateStatus (nextStatus claim phase providerRevision now))
    written result

/-- The record is gone. -/
def markOrphaned (name : String) (expectedVersion : Nat) (providerRevision : String) : Action Claim :=
  transition name expectedVersion .orphaned providerRevision

/-- The record is not as claimed. -/
def markConflict (name : String) (expectedVersion : Nat) (providerRevision : String) : Action Claim :=
  transition name expectedVersion .conflict providerRevision

/-- A claim that cannot be marked is passed over. -/
def markClaimsConflict : List Claim → Action Unit
  | [] => pure ()
  | claim :: rest => do
    let _ ← attempt (transition claim.name claim.resourceVersion .conflict claim.status.observedProviderRevision)
    markClaimsConflict rest

/-- The claim is as it was, and the only one to its record. -/
def revalidateUnique (name : String) (expectedVersion : Nat) : Action Claim := do
  let claim ← get name
  if expectedVersion = 0 ∨ claim.resourceVersion ≠ expectedVersion then throw .staleClaim
  else do
    let claims ← list
    match claimsForRecord claims claim.spec.targetRef claim.spec.record with
    | [only] =>
      if only.name = claim.name then pure claim
      else do
        markClaimsConflict [only]
        throw .duplicateClaim
    | logical => do
      markClaimsConflict logical
      throw .duplicateClaim

/-- `ReserveRequest`; `hasSnapshot` tells whether a snapshot function is supplied. -/
structure ReserveRequest where
  requestNamespace : String
  targetName : String
  controllerID : String
  endpoint : Endpoint
  sources : List SourceRef
  hasSnapshot : Bool

/-- A source reference with every field filled in. -/
def completeSource (source : SourceRef) : Bool :=
  trimSpace source.apiVersion != "" && trimSpace source.kind != "" && trimSpace source.sourceNamespace != "" &&
    trimSpace source.name != "" && trimSpace source.uid != ""

/-- Takes a provider snapshot and validates it. -/
def validSnapshot : Action Snapshot := do
  let result ← Act.call Call.snapshot
  let snapshot ← checked result
  if validateSnapshot snapshot then pure snapshot else throw .providerSnapshot

/-- The finalizer is there once. -/
def withFinalizer (finalizers : List String) : List String :=
  if finalizers.contains claimFinalizer then finalizers else finalizers ++ [claimFinalizer]

/-- `Repository.recoverOrphaned`: nothing when a row of the record still exists. -/
def recoverOrphaned (claim : Claim) (print : String) (request : ReserveRequest) : Action (Option Claim) := do
  let snapshot ← validSnapshot
  let found := inspectClaimRecords snapshot.records request.targetName claim
  if found.exact ≠ [] ∨ found.divergent ≠ [] then pure none
  else if claim.spec.providerID ≠ "" ∧ providerRecordsByID snapshot.records
    claim.spec.providerID ≠ [] then pure none
  else do
    let result ← Act.call (Call.update
      { claim with
        finalizers := withFinalizer claim.finalizers
        spec := { claim.spec with providerID := "", fingerprint := print, sources := request.sources } })
    let updated ← written result
    let reserved ← transition updated.name updated.resourceVersion .reserved ""
    pure (some reserved)

/-- The claim with its finalizer, as `Reserve` continues with it. -/
def ensureFinalizer (claim : Claim) : Action Claim :=
  if claim.finalizers.contains claimFinalizer then pure claim
  else do
    let result ← Act.call (Call.update { claim with finalizers := claim.finalizers ++ [claimFinalizer] })
    written result

/-- The end of `Reserve` for a claim that exists and was not recovered. -/
def reserveExisting (claim : Claim) (identity : Identity) (print : String) (request : ReserveRequest) :
    Action Claim :=
  if !claimSpecMatches claim identity print request.controllerID then do
    let _ ← attempt (transition claim.name claim.resourceVersion .conflict "")
    throw .claimConflict
  else do
    let claim ← ensureFinalizer claim
    match claim.status.phase with
    | .reserved | .confirmed => pure claim
    | .none => transition claim.name claim.resourceVersion .reserved ""
    | .orphaned => throw .claimNotConfirmed
    | .conflict => throw .claimConflict

/-- Whether `Reserve` tries to recover an existing claim. -/
def recoverable (claim : Claim) (identity : Identity) (request : ReserveRequest) : Bool :=
  claim.status.phase == .orphaned && request.hasSnapshot && !claim.deleting &&
    equalFold (trimSpace claim.spec.targetRef) identity.targetName && claim.spec.record == recordKey identity &&
    claim.spec.controllerID == trimSpace request.controllerID

/-- The claim that `Reserve` creates. -/
def newClaim (identity : Identity) (print : String) (request : ReserveRequest) : Claim where
  name := claimName identity
  objectNamespace := request.requestNamespace
  uid := 0
  resourceVersion := 0
  finalizers := [claimFinalizer]
  deleting := false
  spec :=
    { targetRef := identity.targetName, record := recordKey identity, fingerprint := print
      sources := request.sources, controllerID := trimSpace request.controllerID }
  status := {}

/-- `Reserve`: the claim comes before the record. -/
def reserve (request : ReserveRequest) : Action Claim := do
  let identity ← checked (identityFor request.targetName request.endpoint)
  let print ← checked (fingerprint request.targetName request.endpoint)
  if trimSpace request.requestNamespace = "" ∨ trimSpace request.controllerID = "" then throw .invalidRequest
  else if request.sources = [] ∨ request.sources.any (fun source => !completeSource source) then
    throw .invalidRequest
  else do
    let claims ← list
    match claimsForRecord claims identity.targetName (recordKey identity) with
    | [] => do
      let result ← Act.call (Call.create (newClaim identity print request))
      let created ← written result
      transition created.name created.resourceVersion .reserved ""
    | [claim] =>
      if claim.name ≠ claimName identity then do
        markClaimsConflict [claim]
        throw .duplicateClaim
      else if recoverable claim identity request then do
        match ← recoverOrphaned claim print request with
        | some recovered => pure recovered
        | none => reserveExisting claim identity print request
      else reserveExisting claim identity print request
    | logical => do
      markClaimsConflict logical
      throw .duplicateClaim

/-- `Confirm`: binds the claim to a row. -/
def confirm (name : String) (expectedVersion : Nat) (providerID providerRevision : String) : Action Claim :=
  if trimSpace providerID = "" ∨ trimSpace providerRevision = "" then throw .invalidRequest
  else do
    let claim ← revalidateUnique name expectedVersion
    if claim.status.phase ≠ .reserved ∧ claim.status.phase ≠ .orphaned ∧ claim.status.phase ≠ .confirmed then
      throw .claimConflict
    else if claim.spec.providerID ≠ "" ∧ claim.spec.providerID ≠ providerID then do
      let _ ← attempt (transition claim.name claim.resourceVersion .conflict providerRevision)
      throw .claimConflict
    else if claim.spec.providerID ≠ providerID then do
      let result ← Act.call (Call.update { claim with spec := { claim.spec with providerID := providerID } })
      let bound ← written result
      transition bound.name bound.resourceVersion .confirmed providerRevision
    else transition claim.name claim.resourceVersion .confirmed providerRevision

/-- The fingerprint follows the record. -/
def rebindConfirmed (name : String) (expectedVersion : Nat) (targetName : String) (endpoint : Endpoint)
    (providerID providerRevision : String) : Action Claim := do
  let claim ← revalidateUnique name expectedVersion
  if claim.status.phase ≠ .confirmed then throw .claimNotConfirmed
  else do
    let identity ← checked (identityFor targetName endpoint)
    if claim.name ≠ claimName identity ∨ claim.spec.record ≠ recordKey identity ∨
        claim.spec.providerID ≠ providerID then throw .claimConflict
    else do
      let print ← checked (fingerprint targetName endpoint)
      let result ← Act.call (Call.update { claim with spec := { claim.spec with fingerprint := print } })
      let updated ← written result
      transition updated.name updated.resourceVersion .confirmed providerRevision

/-- A row that is there already is to be claimed. -/
structure AdoptionRequest extends ReserveRequest where
  providerID : String
  providerRevision : String
  planHash : String
  approvedPlanHash : String
  expectedFingerprint : String

/-- Claims a row that is there already. -/
def adopt (request : AdoptionRequest) : Action Claim := do
  let identity ← checked (identityFor request.targetName request.endpoint)
  let print ← checked (fingerprint request.targetName request.endpoint)
  if trimSpace request.requestNamespace = "" ∨ trimSpace request.controllerID = "" then throw .invalidRequest
  else if request.planHash = "" ∨ request.planHash ≠ request.approvedPlanHash then throw .invalidRequest
  else if request.providerRevision = "" ∨ request.providerID = "" then throw .invalidRequest
  else if request.expectedFingerprint = "" ∨ request.expectedFingerprint ≠ print then throw .invalidRequest
  else do
    let claims ← list
    match claimsForRecord claims identity.targetName (recordKey identity) with
    | [] => do
      let claim := newClaim identity print request.toReserveRequest
      let result ← Act.call (Call.create
        { claim with spec := { claim.spec with providerID := request.providerID, adoptionRequested := true } })
      let created ← written result
      transition created.name created.resourceVersion .confirmed request.providerRevision
    | [_] => throw .claimConflict
    | logical => do
      markClaimsConflict logical
      throw .duplicateClaim

/-- Lets a deletion go through. -/
def releaseFinalizer (name : String) (expectedVersion : Nat) : Action Claim := do
  let claim ← revalidateUnique name expectedVersion
  let result ← Act.call (Call.update
    { claim with finalizers := claim.finalizers.filter fun value => value ≠ claimFinalizer })
  written result

/-- Deletes the version that was checked. -/
def deleteClaim (name : String) (expectedVersion : Nat) : Action Unit :=
  if expectedVersion = 0 then throw .staleClaim
  else do
    let result ← Act.call (Call.delete name expectedVersion)
    if result = .error .notFound then pure () else written result

end Repository

end FortigateDns
