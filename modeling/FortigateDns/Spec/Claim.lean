import FortigateDns.Conc.Store
import FortigateDns.Go.Json
import FortigateDns.Spec.Plan

/-!
# Ownership claims

`internal/ownership/fingerprint.go` and the pure part of `manager.go`: the identity of a
record, the name and the fingerprint that are derived from it, the claim objects, and how the
rows of a provider snapshot compare with a claim.
-/

namespace FortigateDns

open Go Conc

/-- The errors of the ownership package. -/
inductive OwnershipError
  | claimNotFound | claimConflict | duplicateClaim | staleClaim | claimNotConfirmed | claimNotDestructive
  | providerSnapshot | providerDrift | providerConflict | approvalRequired
  | invalidRequest | notObservable | store | provider | canceled | revoked
  deriving DecidableEq, Repr

/-- What a claim is about. -/
structure Identity where
  targetName : String
  zone : String
  dnsName : String
  recordType : String
  target : String
  deriving DecidableEq, Repr

/-- `IdentityFor`: only records with one target have one. -/
def identityFor (targetName : String) (endpoint : Endpoint) : Except OwnershipError Identity :=
  let endpoint := endpoint.normalize
  match endpoint.targets with
  | [target] =>
    if target = "" then .error .invalidRequest
    else
      let targetName := toLower (trimSpace targetName)
      if targetName = "" then .error .invalidRequest
      else if endpoint.zone = "" ∨ endpoint.dnsName = "" then .error .invalidRequest
      else if endpoint.recordType = recordA ∨ endpoint.recordType = recordAAAA ∨
        endpoint.recordType = recordCNAME then
        .ok ⟨targetName, endpoint.zone, endpoint.dnsName, endpoint.recordType, target⟩
      else .error .invalidRequest
  | _ => .error .invalidRequest

/-- `mustCanonical(identity)`. -/
def Identity.canonical (identity : Identity) : List Char :=
  Json.object [("targetName", Json.string identity.targetName), ("zone", Json.string identity.zone),
    ("dnsName", Json.string identity.dnsName), ("recordType", Json.string identity.recordType),
    ("target", Json.string identity.target)]

/-- A digest of the identity. -/
def claimName (identity : Identity) : String :=
  String.ofList ("record-".toList ++ (sha256Hex identity.canonical).take 56)

/-- The digest of the record with its TTL and status. -/
def fingerprint (targetName : String) (endpoint : Endpoint) : Except OwnershipError String :=
  match identityFor targetName endpoint with
  | .error err => .error err
  | .ok identity =>
    let status := if endpoint.disabled then "disable" else "enable"
    .ok (String.ofList (sha256Hex (Json.object [("identity", identity.canonical), ("ttl", Json.int endpoint.ttl),
      ("status", Json.string status)])))

/-- `DNSRecordKey`. -/
structure RecordKey where
  name : String
  type : String
  target : String
  deriving DecidableEq, Repr

/-- The part of the identity that a claim spells out. -/
def recordKey (identity : Identity) : RecordKey := ⟨identity.dnsName, identity.recordType, identity.target⟩

/-- `OwnershipPhase`; a claim whose status was never written has none. -/
inductive Phase
  | none | reserved | confirmed | orphaned | conflict
  deriving DecidableEq, Repr

/-- Who claims which record. -/
structure ClaimSpec where
  targetRef : String
  providerID : String := ""
  record : RecordKey
  fingerprint : String
  sources : List SourceRef := []
  controllerID : String
  adoptionRequested : Bool := false
  deriving DecidableEq, Repr

/-- How far the claim has come. -/
structure ClaimStatus where
  phase : Phase := .none
  observedProviderRevision : String := ""
  lastConfirmedTime : Option Nat := Option.none
  deriving DecidableEq, Repr

/-- `FortiGateDNSRecordOwnership`. -/
abbrev Claim := Object ClaimSpec ClaimStatus

/-- The claims of one namespace. -/
abbrev ClaimStore := Store ClaimSpec ClaimStatus

/-- Claims are not deleted under the controller. -/
def claimFinalizer : String := "fortigate-external-dns.kgskr.io/ownership-protection"

/-- All claims to a record of a target. -/
def claimsForRecord (claims : List Claim) (targetName : String) (record : RecordKey) : List Claim :=
  claims.filter fun claim => equalFold (trimSpace claim.spec.targetRef) targetName && claim.spec.record == record

/-- The claim is to this record, for this controller. -/
def claimSpecMatches (claim : Claim) (identity : Identity) (print controllerID : String) : Bool :=
  equalFold (trimSpace claim.spec.targetRef) identity.targetName && claim.spec.record == recordKey identity &&
    claim.spec.fingerprint == print && claim.spec.controllerID == trimSpace controllerID

/-- The record is the claimed one, as it was claimed. -/
def claimMatches (claim : Claim) (targetName : String) (endpoint : Endpoint) : Bool :=
  match identityFor targetName endpoint, fingerprint targetName endpoint with
  | .ok identity, .ok print =>
    claim.name == claimName identity && claim.spec.targetRef == identity.targetName &&
      claim.spec.record == recordKey identity && claim.spec.fingerprint == print
  | _, _ => false

/-- The records of the device and their revision. -/
structure Snapshot where
  revision : String
  stable : Bool
  records : List Endpoint
  deriving DecidableEq, Repr

/-- A stable listing with a revision. -/
def validateSnapshot (snapshot : Snapshot) : Bool := snapshot.stable && trimSpace snapshot.revision != ""

/-- The rows with a provider ID. -/
def providerRecordsByID (records : List Endpoint) (providerID : String) : List Endpoint :=
  records.filter fun record => trimSpace record.providerID == trimSpace providerID

/-- What an inspection of the rows finds: those that are exactly the record, those of the same
identity that differ, and whether the provider ID is on several rows. -/
structure Inspection where
  exact : List Endpoint
  divergent : List Endpoint
  reused : Bool

/-- The rows of an identity that `ofRecord` tells, split by fingerprint. -/
def inspect (records : List Endpoint) (targetName providerID print : String) (ofRecord : Identity → Bool) :
    Inspection :=
  let rows := records.filter fun record =>
    match identityFor targetName record with
    | .error _ => false
    | .ok identity => ofRecord identity
  let isExact := fun record => fingerprint targetName record == .ok print
  { exact := rows.filter isExact
    divergent := rows.filter fun record => !isExact record
    reused := providerID != "" && records.any (fun record => record.providerID == providerID) &&
      (providerRecordsByID records providerID).length != 1 }

/-- What the device shows of a record. -/
def inspectRecord (records : List Endpoint) (targetName : String) (desired : Endpoint) (providerID : String) :
    Except OwnershipError Inspection := do
  let identity ← identityFor targetName desired
  let print ← fingerprint targetName desired
  return inspect records targetName providerID print fun i => i == identity

/-- What the device shows of a claimed record. -/
def inspectClaimRecords (records : List Endpoint) (targetName : String) (claim : Claim) : Inspection :=
  inspect records targetName claim.spec.providerID claim.spec.fingerprint
    fun i => recordKey i == claim.spec.record

end FortigateDns
