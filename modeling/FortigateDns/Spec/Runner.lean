import FortigateDns.Spec.Table

/-!
# Preparing a cycle

`internal/controller/runner.go`: `Prepare` turns what discovery, the policies and the device
say into the operations of one cycle. Exclusive zone ownership first labels the rows of the
device, the planner runs under a cleanup scope, and two passes rewrite its result:
`enforceRestrictedOwnershipConflicts` and `guardCleanup`. What discovery, the policy
evaluator and the device return is an input here.
-/

namespace FortigateDns

open Go

/-- `SourceService`, `SourceIngress` and `SourceGateway`. -/
def sourceService : String := "service"
def sourceIngress : String := "ingress"
def sourceGateway : String := "gateway"

/-- The configuration that planning reads. -/
structure Config where
  sources : List String := []
  namespaces : List String := []
  domainFilters : List String := []
  ownerID : String := ""
  cleanupPolicy : CleanupPolicy := .delete
  exclusiveZoneOwnership : Bool := false
  allowEmptyDesiredCleanup : Bool := false
  maxCleanupPerCycle : Int := 0

/-- `source.Result`: the endpoints found and the sources that could not be fully read. -/
structure Discovery where
  endpoints : List Endpoint := []
  incompleteSources : List String := []

/-- Why a policy rejects an endpoint. -/
inductive Reason
  | denied | hostnameNotAllowed | ttlNotAllowed | targetNotAllowed | optInRequired
  | namespaceQuotaExceeded | targetQuotaExceeded | policyInvalid
  deriving DecidableEq, Repr

/-- An endpoint that a policy rejects. -/
structure Rejection where
  endpoint : Endpoint
  reason : Reason

/-- `policy.Result`. -/
structure PolicyResult where
  allowed : List Endpoint := []
  rejected : List Rejection := []
  invalidPolicyNamespaces : List String := []

/-- No list enables all sources. -/
def Config.sourceEnabled (cfg : Config) (name : String) : Bool :=
  cfg.sources.isEmpty || cfg.sources.any fun s => equalFold s name

/-- No list allows all namespaces. -/
def Config.namespaceAllowed (cfg : Config) (ns : String) : Bool :=
  cfg.namespaces.isEmpty || cfg.namespaces.contains ns

/-- Without filters every name is allowed. -/
def Config.domainAllowed (cfg : Config) (hostname : String) : Bool :=
  let name := normalizeDNSName hostname
  cfg.domainFilters.isEmpty || cfg.domainFilters.any fun filter =>
    let filter := normalizeDNSName filter
    name == filter || hasSuffix name ("." ++ filter)

/-- Some source is left out. -/
def sourcesAreRestrictive (sources : List String) : Bool :=
  if sources.isEmpty then false
  else
    let enabled := sources.map toLower
    !(enabled.contains sourceService && enabled.contains sourceIngress && enabled.contains sourceGateway)

/-- The source that an object kind belongs to. -/
def cleanupSourceName (kind : String) : String :=
  let kind := toLower kind
  if kind = "service" then sourceService
  else if kind = "ingress" then sourceIngress
  else if kind = "gateway" ∨ kind = "httproute" then sourceGateway
  else ""

/-- The namespace rule of `cleanupAllowed`. -/
def Config.namespaceInScope (cfg : Config) (endpoint : Endpoint) : Bool :=
  cfg.namespaces.isEmpty ||
    (endpoint.source.sourceNamespace != "" && cfg.namespaceAllowed endpoint.source.sourceNamespace)

/-- The source rule of `cleanupAllowed`. -/
def Config.sourceInScope (cfg : Config) (endpoint : Endpoint) : Bool :=
  !sourcesAreRestrictive cfg.sources ||
    (cleanupSourceName endpoint.source.kind != "" && cfg.sourceEnabled (cleanupSourceName endpoint.source.kind))

/-- The row is in the scope that the controller discovers. -/
def cleanupAllowed (endpoint : Endpoint) (cfg : Config) : Bool :=
  if !cfg.domainAllowed endpoint.dnsName then false
  else if cfg.exclusiveZoneOwnership then true
  else cfg.namespaceInScope endpoint && cfg.sourceInScope endpoint

/-- The types that the controller manages. -/
def adoptableRecordType (recordType : String) : Bool :=
  let recordType := toUpper (trimSpace recordType)
  recordType == recordA || recordType == recordAAAA || recordType == recordCNAME

/-- A desired record and a row in its way. -/
structure RestrictedOwnershipConflict where
  desired : Endpoint
  current : Endpoint

/-- `restrictedRecordSetsEqual`, the part after the length check; `seen` are the keys so far. -/
def restrictedRecordSetsMatch (desiredByKey : GoMap Endpoint) (seen : List String) : List Endpoint → Bool
  | [] => true
  | c :: rest =>
    match desiredByKey.lookup c.key with
    | none => false
    | some d =>
      if !c.equalRecord d then false
      else if seen.contains c.key then false
      else restrictedRecordSetsMatch desiredByKey (c.key :: seen) rest

/-- The rows of a name are its desired records. -/
def restrictedRecordSetsEqual (current desired : List Endpoint) (desiredByKey : GoMap Endpoint) : Bool :=
  current.length == desired.length && restrictedRecordSetsMatch desiredByKey [] current

/-- `sortEndpointsForConflict`: by key, then by provider ID. -/
def sortEndpointsForConflict (rt : Runtime) (endpoints : List Endpoint) : List Endpoint :=
  (rt.tieEndpoints endpoints).insertionSort fun a b =>
    if a.key ≠ b.key then a.key < b.key else a.providerID ≤ b.providerID

/-- The owner that unrestricted exclusive ownership gives to a row. -/
def adoptRow (ownerID : String) (row : Endpoint) : Endpoint :=
  { row with ownerID := if adoptableRecordType row.recordType then ownerID else "" }

/-- The owner that restricted exclusive ownership gives to a row: only a row that is exactly
a desired record is adopted. -/
def adoptExactRow (desiredByKey : GoMap Endpoint) (ownerID : String) (row : Endpoint) : Endpoint :=
  let normalized := { row with ownerID := "" }.normalize
  let exact :=
    match desiredByKey.lookup normalized.key with
    | none => false
    | some d => normalized.equalRecord d
  { row with ownerID := if adoptableRecordType row.recordType && exact then ownerID else "" }

/-- The conflicts restricted ownership finds: one for each desired name whose rows are not
exactly the desired records. -/
def restrictedConflicts (rt : Runtime) (desiredByKey : GoMap Endpoint) (current : List Endpoint) :
    GoMap RestrictedOwnershipConflict :=
  let desiredByGroup :=
    GoMap.groupBy Endpoint.mutationGroupKey ((rt.range .ownedDesired desiredByKey).map Prod.snd)
  let currentByGroup := GoMap.groupBy Endpoint.mutationGroupKey
    ((current.filter fun c => adoptableRecordType c.recordType).map
      fun c => { c with ownerID := "" }.normalize)
  (rt.range .ownedGroups desiredByGroup).foldl (fun conflicts (p : String × List Endpoint) =>
    let rows := currentByGroup.slice p.1
    if rows.isEmpty || restrictedRecordSetsEqual rows p.2 desiredByKey then conflicts
    else conflicts.set p.1
      { desired := (sortEndpointsForConflict rt p.2).headD {}
        current := (sortEndpointsForConflict rt rows).headD {} }) ∅

/-- `prepareExclusiveOwnership`: the rows with their new owners, and the conflicts. -/
def prepareExclusiveOwnership (rt : Runtime) (current desired : List Endpoint) (ownerID : String)
    (restricted : Bool) : List Endpoint × GoMap RestrictedOwnershipConflict :=
  if !restricted then (current.map (adoptRow ownerID), ∅)
  else
    let desiredByKey := indexDesired desired
    (current.map (adoptExactRow desiredByKey ownerID), restrictedConflicts rt desiredByKey current)

/-- Conflicts take the place of the operations of a name. -/
def enforceRestrictedOwnershipConflicts (operations : List Operation)
    (conflicts : GoMap RestrictedOwnershipConflict) : List Operation :=
  if conflicts.keys.isEmpty then operations
  else
    let kept := operations.filter fun op =>
      let endpoint := if op.desired.dnsName = "" then op.current else op.desired
      !(conflicts.lookup endpoint.mutationGroupKey).isSome
    let groups := conflicts.keys.insertionSort fun a b => a ≤ b
    let conflictOperations := groups.filterMap fun group =>
      (conflicts.lookup group).map fun (c : RestrictedOwnershipConflict) =>
        ({ type := .conflict, desired := c.desired, current := c.current
           reason := "restricted exclusive-zone discovery cannot prove ownership of mismatched existing records" } :
          Operation)
    conflictOperations ++ kept

/-- Why cleanup was left out, and of how many rows. -/
structure CleanupRefusal where
  reason : String := ""
  count : Nat := 0

def refusalEmptyDesired : String := "empty-desired"
def refusalCapExceeded : String := "cap-exceeded"

/-- Cleanup is left out as a whole. -/
def guardCleanup (operations : List Operation) (desiredCount : Nat) (cfg : Config) :
    List Operation × CleanupRefusal :=
  let cleanupCount := (operations.filter fun op => isCleanupOperation op.type).length
  let refused (reason : String) : List Operation × CleanupRefusal :=
    (operations.filter fun op => !isCleanupOperation op.type, { reason := reason, count := cleanupCount })
  if cleanupCount = 0 then (operations, {})
  else if desiredCount = 0 ∧ cfg.allowEmptyDesiredCleanup = false then refused refusalEmptyDesired
  else if 0 < cfg.maxCleanupPerCycle ∧ cfg.maxCleanupPerCycle < cleanupCount then refused refusalCapExceeded
  else (operations, {})

/-- The desired endpoints of the cycle: those the policies allow, if there are policies. -/
def desiredEndpoints (discovery : Discovery) (policies : Option PolicyResult) : List Endpoint :=
  match policies with
  | none => discovery.endpoints
  | some result => result.allowed

/-- No result has none. -/
def invalidPolicyNamespaces (policies : Option PolicyResult) : List String :=
  (policies.map PolicyResult.invalidPolicyNamespaces).getD []

/-- A rejection for quota. -/
def Rejection.forQuota (r : Rejection) : Bool :=
  r.reason == .namespaceQuotaExceeded || r.reason == .targetQuotaExceeded

/-- The names that a quota left out. -/
def quotaRejectedNames (policies : Option PolicyResult) : List String :=
  (((policies.map PolicyResult.rejected).getD []).filter Rejection.forQuota).map fun r =>
    normalizeDNSName r.endpoint.dnsName

/-- Not everything could be read. -/
def cleanupSuppressed (discovery : Discovery) (policies : Option PolicyResult) : Bool :=
  !discovery.incompleteSources.isEmpty || !(invalidPolicyNamespaces policies).isEmpty

/-- The cleanup scope that `Prepare` hands to the planner. -/
def cleanupScope (cfg : Config) (discovery : Discovery) (policies : Option PolicyResult)
    (endpoint : Endpoint) : Bool :=
  if cleanupSuppressed discovery policies then false
  else if (quotaRejectedNames policies).contains (normalizeDNSName endpoint.dnsName) then false
  else cleanupAllowed endpoint cfg

/-- The rows and conflicts after the ownership step. -/
def ownershipStep (rt : Runtime) (cfg : Config) (current desired : List Endpoint) :
    List Endpoint × GoMap RestrictedOwnershipConflict :=
  if cfg.exclusiveZoneOwnership then
    let restricted := !cfg.namespaces.isEmpty || sourcesAreRestrictive cfg.sources
    prepareExclusiveOwnership rt current desired cfg.ownerID restricted
  else (current, ∅)

/-- The operations of the cycle before the guard. -/
def plannedOperations (rt : Runtime) (cfg : Config) (discovery : Discovery) (policies : Option PolicyResult)
    (current : List Endpoint) : List Operation :=
  let desired := desiredEndpoints discovery policies
  let owned := ownershipStep rt cfg current desired
  enforceRestrictedOwnershipConflicts
    (buildWithCleanupScope rt desired owned.1 cfg.ownerID cfg.cleanupPolicy (cleanupScope cfg discovery policies))
    owned.2

/-- `ReconcileAudit`, the fields that come from planning. -/
structure ReconcileAudit where
  operations : List Operation
  refusal : CleanupRefusal
  desiredCount : Nat
  currentCount : Nat
  conflictCount : Nat
  discoveryComplete : Bool
  policyComplete : Bool

/-- `Prepare`, from the results of discovery, policy evaluation and listing on. -/
def prepare (rt : Runtime) (cfg : Config) (discovery : Discovery) (policies : Option PolicyResult)
    (current : List Endpoint) : ReconcileAudit :=
  let desired := desiredEndpoints discovery policies
  let guarded := guardCleanup (plannedOperations rt cfg discovery policies current) desired.length cfg
  { operations := guarded.1
    refusal := guarded.2
    desiredCount := desired.length
    currentCount := current.length
    conflictCount := (guarded.1.filter fun op => op.type = .conflict).length
    discoveryComplete := discovery.incompleteSources.isEmpty
    policyComplete := (invalidPolicyNamespaces policies).isEmpty }

end FortigateDns
