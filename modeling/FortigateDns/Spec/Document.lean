import FortigateDns.Go.Json
import FortigateDns.Spec.Plan

/-!
# Plan documents

`internal/plan/document.go`: the document that a plan is approved by. Its canonical JSON does
not depend on the order of its collections, and its identifier is the digest of that JSON.
Types, reasons and decision codes are texts, as in the source: a document that was read back
may carry any. The ties of `sort.Slice` and the order of `range` over a map are open, as in
the planner.
-/

namespace FortigateDns

open Go

/-- The version that documents are written in. -/
def documentAPIVersion : String := "fortigate-external-dns.kgskr.io/v1alpha1"

/-- The kind of a document. -/
def documentKind : String := "ReconciliationPlan"

/-- The target that a plan is for. -/
structure TargetIdentity where
  targetNamespace : String := ""
  name : String := ""
  uid : String := ""
  generation : Int := 0
  vdom : String := ""
  zone : String := ""
  deriving DecidableEq, Repr

/-- The device as it was listed. -/
structure ProviderPrecondition where
  revision : String := ""
  stable : Bool := false
  complete : Bool := false
  deriving DecidableEq, Repr

/-- A source as it was discovered. -/
structure DiscoverySourcePrecondition where
  kind : String := ""
  sourceNamespace : String := ""
  name : String := ""
  resourceVersion : String := ""
  complete : Bool := false
  deriving DecidableEq, Repr

/-- The discovery that a plan was made from. -/
structure DiscoveryPrecondition where
  generation : Int := 0
  complete : Bool := false
  sources : List DiscoverySourcePrecondition := []
  deriving DecidableEq, Repr

/-- A policy as it was read. -/
structure PolicyResourcePrecondition where
  policyNamespace : String := ""
  name : String := ""
  uid : String := ""
  generation : Int := 0
  resourceVersion : String := ""
  deriving DecidableEq, Repr

/-- The policies that a plan was made under. -/
structure PolicyPrecondition where
  generation : Int := 0
  complete : Bool := false
  resources : List PolicyResourcePrecondition := []
  deriving DecidableEq, Repr

/-- `OwnershipPrecondition`, with every field as the text the document has. -/
structure OwnershipPrecondition where
  claimNamespace : String := ""
  name : String := ""
  uid : String := ""
  resourceVersion : String := ""
  providerID : String := ""
  fingerprint : String := ""
  phase : String := ""
  deriving DecidableEq, Repr

/-- What has to be as planned when a plan is applied. -/
structure Preconditions where
  provider : ProviderPrecondition := {}
  discovery : DiscoveryPrecondition := {}
  policy : PolicyPrecondition := {}
  ownership : List OwnershipPrecondition := []
  deriving DecidableEq, Repr

/-- An endpoint without its owner and source. -/
structure SanitizedRecord where
  zone : String
  dnsName : String
  recordType : String
  targets : List String
  ttl : Int
  providerID : String
  disabled : Bool
  deriving DecidableEq, Repr

/-- An operation as a document shows it. -/
structure SanitizedOperation where
  id : String := ""
  type : String
  desired : Option SanitizedRecord := none
  current : Option SanitizedRecord := none
  reason : String
  deriving DecidableEq, Repr

/-- One operation waits for another. -/
structure PrerequisiteEdge where
  operationID : String
  requiresOperationID : String
  deriving DecidableEq, Repr

/-- What a safety check said of some operations. -/
structure SafetyDecision where
  code : String
  allowed : Bool
  operationIDs : List String := []
  deriving DecidableEq, Repr

/-- A plan as it is reviewed and stored. -/
structure Document where
  apiVersion : String
  kind : String
  target : TargetIdentity
  preconditions : Preconditions
  operations : List SanitizedOperation := []
  prerequisites : List PrerequisiteEdge := []
  safetyDecisions : List SafetyDecision := []
  deriving DecidableEq, Repr

/-- The fields in the order of the struct, as `encoding/json` writes them; so below. -/
def TargetIdentity.json (t : TargetIdentity) : List Char :=
  Json.object (Json.omitEmpty "namespace" (t.targetNamespace == "") (Json.string t.targetNamespace) ++
    [("name", Json.string t.name)] ++ Json.omitEmpty "uid" (t.uid == "") (Json.string t.uid) ++
    [("generation", Json.int t.generation)] ++ Json.omitEmpty "vdom" (t.vdom == "") (Json.string t.vdom) ++
    [("zone", Json.string t.zone)])

/-- All fields are written. -/
def ProviderPrecondition.json (p : ProviderPrecondition) : List Char :=
  Json.object [("revision", Json.string p.revision), ("stable", Json.bool p.stable),
    ("complete", Json.bool p.complete)]

/-- Empty texts are left out. -/
def DiscoverySourcePrecondition.json (s : DiscoverySourcePrecondition) : List Char :=
  Json.object ([("kind", Json.string s.kind)] ++
    Json.omitEmpty "namespace" (s.sourceNamespace == "") (Json.string s.sourceNamespace) ++
    Json.omitEmpty "name" (s.name == "") (Json.string s.name) ++
    Json.omitEmpty "resourceVersion" (s.resourceVersion == "") (Json.string s.resourceVersion) ++
    [("complete", Json.bool s.complete)])

/-- Without sources there is no list of them. -/
def DiscoveryPrecondition.json (d : DiscoveryPrecondition) : List Char :=
  Json.object ([("generation", Json.int d.generation), ("complete", Json.bool d.complete)] ++
    Json.omitEmpty "sources" d.sources.isEmpty (Json.array (d.sources.map DiscoverySourcePrecondition.json)))

/-- An empty UID is left out. -/
def PolicyResourcePrecondition.json (r : PolicyResourcePrecondition) : List Char :=
  Json.object ([("namespace", Json.string r.policyNamespace), ("name", Json.string r.name)] ++
    Json.omitEmpty "uid" (r.uid == "") (Json.string r.uid) ++
    [("generation", Json.int r.generation), ("resourceVersion", Json.string r.resourceVersion)])

/-- Without policies there is no list of them. -/
def PolicyPrecondition.json (p : PolicyPrecondition) : List Char :=
  Json.object ([("generation", Json.int p.generation), ("complete", Json.bool p.complete)] ++
    Json.omitEmpty "resources" p.resources.isEmpty (Json.array (p.resources.map PolicyResourcePrecondition.json)))

/-- An empty UID or provider ID is left out. -/
def OwnershipPrecondition.json (o : OwnershipPrecondition) : List Char :=
  Json.object ([("namespace", Json.string o.claimNamespace), ("name", Json.string o.name)] ++
    Json.omitEmpty "uid" (o.uid == "") (Json.string o.uid) ++ [("resourceVersion",
      Json.string o.resourceVersion)] ++
    Json.omitEmpty "providerID" (o.providerID == "") (Json.string o.providerID) ++
    [("fingerprint", Json.string o.fingerprint), ("phase", Json.string o.phase)])

/-- Without claims there is no list of them. -/
def Preconditions.json (p : Preconditions) : List Char :=
  Json.object ([("provider", p.provider.json), ("discovery", p.discovery.json), ("policy", p.policy.json)] ++
    Json.omitEmpty "ownership" p.ownership.isEmpty (Json.array (p.ownership.map OwnershipPrecondition.json)))

/-- Without targets or a provider ID their fields are left out. -/
def SanitizedRecord.json (r : SanitizedRecord) : List Char :=
  Json.object ([("zone", Json.string r.zone), ("dnsName", Json.string r.dnsName),
      ("recordType", Json.string r.recordType)] ++
    Json.omitEmpty "targets" r.targets.isEmpty (Json.array (r.targets.map Json.string)) ++
    [("ttl", Json.int r.ttl)] ++ Json.omitEmpty "providerID" (r.providerID == "") (Json.string r.providerID) ++
    [("disabled", Json.bool r.disabled)])

/-- A pointer field with `omitempty`. -/
def recordField (name : String) (record : Option SanitizedRecord) : List (String × List Char) :=
  (record.map fun r => (name, r.json)).toList

/-- The fields that `operationIdentity` and the JSON of an operation share. -/
def SanitizedOperation.contentFields (op : SanitizedOperation) : List (String × List Char) :=
  [("type", Json.string op.type)] ++ recordField "desired" op.desired ++ recordField "current" op.current ++
    [("reason", Json.string op.reason)]

/-- The identifier comes first. -/
def SanitizedOperation.json (op : SanitizedOperation) : List Char :=
  Json.object (("id", Json.string op.id) :: op.contentFields)

/-- Both identifiers are written. -/
def PrerequisiteEdge.json (e : PrerequisiteEdge) : List Char :=
  Json.object [("operationID", Json.string e.operationID),
    ("requiresOperationID", Json.string e.requiresOperationID)]

/-- Without operations there is no list of them. -/
def SafetyDecision.json (d : SafetyDecision) : List Char :=
  Json.object ([("code", Json.string d.code), ("allowed", Json.bool d.allowed)] ++
    Json.omitEmpty "operationIDs" d.operationIDs.isEmpty (Json.array (d.operationIDs.map Json.string)))

/-- The JSON of `plainDocument`. -/
def Document.json (d : Document) : List Char :=
  Json.object ([("apiVersion", Json.string d.apiVersion), ("kind", Json.string d.kind), ("target", d.target.json),
      ("preconditions", d.preconditions.json)] ++
    Json.omitEmpty "operations" d.operations.isEmpty (Json.array (d.operations.map SanitizedOperation.json)) ++
    Json.omitEmpty "prerequisites" d.prerequisites.isEmpty
      (Json.array (d.prerequisites.map PrerequisiteEdge.json)) ++
    Json.omitEmpty "safetyDecisions" d.safetyDecisions.isEmpty
      (Json.array (d.safetyDecisions.map SafetyDecision.json)))

/-- The digest of everything but the identifier. -/
def operationID (op : SanitizedOperation) : String := String.ofList (sha256Hex (Json.object op.contentFields))

/-- The endpoint is normalized first. -/
def sanitizeRecord (endpoint : Endpoint) : SanitizedRecord :=
  let endpoint := endpoint.normalize
  { zone := endpoint.zone, dnsName := endpoint.dnsName, recordType := endpoint.recordType
    targets := endpoint.targets, ttl := endpoint.ttl, providerID := trimSpace endpoint.providerID
    disabled := endpoint.disabled }

/-- An endpoint without content stands for none. -/
def endpointIsZero (endpoint : Endpoint) : Bool :=
  endpoint.dnsName == "" && endpoint.recordType == "" && endpoint.targets.isEmpty && endpoint.ttl == 0 &&
    endpoint.zone == "" && endpoint.providerID == "" && !endpoint.disabled

/-- `operationReason`: the code of a reason's text. -/
def operationReason (reason : String) : String :=
  let reason := trimSpace reason
  if reason = "record is missing" then "record-missing"
  else if reason = "record differs from desired state" then "record-differs"
  else if reason = "managed record is stale" then "record-stale"
  else if reason = "record target changed" then "record-target-changed"
  else if reason = "record type changed" then "record-type-changed"
  else if reason = reasonNotOwned then "logical-record-unowned"
  else if reason = reasonUnownedCNAME then "cname-unowned-conflict"
  else if reason = reasonMixedCNAME ∨ reason = reasonCNAMEMultipleTargets then "cname-type-conflict"
  else if reason = reasonTypeTransition ∨ reason = reasonTargetTransition then "cname-transition-ambiguous"
  else "unspecified"

/-- An endpoint of an operation, unless it is zero. -/
def sanitizeEndpoint (endpoint : Endpoint) : Option SanitizedRecord :=
  if endpointIsZero endpoint then none else some (sanitizeRecord endpoint)

/-- `SanitizeOperation`, before the ID is filled in. -/
def sanitizedContent (operation : Operation) : SanitizedOperation where
  type := trimSpace operation.type.text
  desired := sanitizeEndpoint operation.desired
  current := sanitizeEndpoint operation.current
  reason := operationReason operation.reason

/-- The identifier is taken of the rest. -/
def sanitizeOperation (operation : Operation) : SanitizedOperation :=
  { sanitizedContent operation with id := operationID (sanitizedContent operation) }

/-- `NewDocument`: the operations sanitized, in the order of the plan. -/
def newDocument (target : TargetIdentity) (preconditions : Preconditions) (operations : List Operation) :
    Document where
  apiVersion := documentAPIVersion
  kind := documentKind
  target := target
  preconditions := preconditions
  operations := operations.map sanitizeOperation

/-- What the Go runtime leaves open here: where `sort.Slice` puts equal elements, and the order
of `range` over the map of dependencies. -/
structure DocumentRuntime where
  tie : (α : Type) → List α → List α
  tie_perm : ∀ α l, (tie α l).Perm l
  order : List String → List String
  order_perm : ∀ l, (order l).Perm l

/-- The runtime that keeps every order. -/
def DocumentRuntime.plain : DocumentRuntime where
  tie _ l := l
  tie_perm _ _ := List.Perm.refl _
  order l := l
  order_perm _ := List.Perm.refl _

/-- `sort.Slice` by a text key. -/
def DocumentRuntime.sortBy {α : Type} (rt : DocumentRuntime) (key : α → String) (l : List α) : List α :=
  (rt.tie α l).insertionSort fun a b => key a ≤ key b

/-- Trimmed, sorted, and each once. -/
def sortedUniqueStrings (values : List String) : List String := (sortStrings (values.map trimSpace)).eraseReps

/-- Texts trimmed, the zone normalized. -/
def canonicalTarget (target : TargetIdentity) : TargetIdentity :=
  { target with
    targetNamespace := trimSpace target.targetNamespace
    name := trimSpace target.name
    uid := trimSpace target.uid
    vdom := trimSpace target.vdom
    zone := normalizeDNSName target.zone }

/-- The texts that sources are sorted by. -/
def discoverySourceSortKey (s : DiscoverySourcePrecondition) : String :=
  join "\x00" [s.kind, s.sourceNamespace, s.name, s.resourceVersion, toString s.complete]

/-- The texts that policies are sorted by. -/
def policyResourceSortKey (r : PolicyResourcePrecondition) : String :=
  join "\x00" [r.policyNamespace, r.name, r.uid, toString r.generation, r.resourceVersion]

/-- The texts that claims are sorted by. -/
def ownershipSortKey (o : OwnershipPrecondition) : String :=
  join "\x00" [o.claimNamespace, o.name, o.uid, o.resourceVersion, o.providerID, o.fingerprint, o.phase]

/-- The texts that operations are sorted by. -/
def operationSortKey (op : SanitizedOperation) : String := join "\x00" [op.id, op.type, op.reason]

/-- The texts that edges are sorted by. -/
def prerequisiteSortKey (e : PrerequisiteEdge) : String := join "\x00" [e.operationID, e.requiresOperationID]

/-- The texts that decisions are sorted by. -/
def safetyDecisionSortKey (d : SafetyDecision) : String :=
  join "\x00" [d.code, toString d.allowed, join "\x01" d.operationIDs]

/-- Trimmed, and each list sorted. -/
def canonicalPreconditions (rt : DocumentRuntime) (p : Preconditions) : Preconditions where
  provider := { p.provider with revision := trimSpace p.provider.revision }
  discovery := { p.discovery with
    sources := rt.sortBy discoverySourceSortKey (p.discovery.sources.map fun s =>
      { s with
        kind := trimSpace s.kind
        sourceNamespace := trimSpace s.sourceNamespace
        name := trimSpace s.name
        resourceVersion := trimSpace s.resourceVersion }) }
  policy := { p.policy with
    resources := rt.sortBy policyResourceSortKey (p.policy.resources.map fun r =>
      { r with
        policyNamespace := trimSpace r.policyNamespace
        name := trimSpace r.name
        uid := trimSpace r.uid
        resourceVersion := trimSpace r.resourceVersion }) }
  ownership := rt.sortBy ownershipSortKey (p.ownership.map fun o =>
    { claimNamespace := trimSpace o.claimNamespace, name := trimSpace o.name, uid := trimSpace o.uid
      resourceVersion := trimSpace o.resourceVersion, providerID := trimSpace o.providerID
      fingerprint := trimSpace o.fingerprint, phase := trimSpace o.phase })

/-- A record is normalized as an endpoint. -/
def canonicalRecord (record : SanitizedRecord) : SanitizedRecord :=
  let endpoint : Endpoint := { zone := record.zone, dnsName := record.dnsName, recordType := record.recordType
                               targets := record.targets }
  let endpoint := endpoint.normalize
  { record with
    zone := endpoint.zone
    dnsName := endpoint.dnsName
    recordType := endpoint.recordType
    targets := sortedUniqueStrings endpoint.targets
    providerID := trimSpace record.providerID }

/-- The reasons that `canonicalOperationReason` keeps. -/
def operationReasons : List String :=
  ["record-missing", "record-differs", "record-stale", "record-target-changed", "record-type-changed",
   "logical-record-unowned", "cname-unowned-conflict", "cname-type-conflict", "cname-transition-ambiguous"]

/-- Only known reasons are shown. -/
def canonicalOperationReason (reason : String) : String :=
  if reason ∈ operationReasons then reason else "unspecified"

/-- The codes that `canonicalSafetyDecisionCode` keeps. -/
def safetyDecisionCodes : List String :=
  ["discovery-complete", "provider-snapshot-stable", "policy-accepted", "ownership-authorized",
   "empty-desired-guard", "cleanup-limit", "logical-conflict", "approval-required"]

/-- Only known codes are shown. -/
def canonicalSafetyDecisionCode (code : String) : String :=
    if code ∈ safetyDecisionCodes then code else "unspecified"

/-- Trimmed, with canonical records and reason; a missing identifier is computed. -/
def canonicalOperation (op : SanitizedOperation) : SanitizedOperation :=
  let op : SanitizedOperation :=
    { id := trimSpace op.id, type := trimSpace op.type, desired := op.desired.map canonicalRecord
      current := op.current.map canonicalRecord, reason := canonicalOperationReason op.reason }
  if op.id = "" then { op with id := operationID op } else op

/-- Sorted, and each edge once. -/
def deduplicatePrerequisites (rt : DocumentRuntime) (edges : List PrerequisiteEdge) : List PrerequisiteEdge :=
  (rt.sortBy prerequisiteSortKey (edges.map fun e =>
    ⟨trimSpace e.operationID, trimSpace e.requiresOperationID⟩)).eraseReps

/-- A text field with a default. -/
def withDefault (value default : String) : String := if trimSpace value = "" then default else trimSpace value

/-- `canonicalCopy`: the document in the form that is hashed. -/
def Document.canonicalCopy (rt : DocumentRuntime) (d : Document) : Document where
  apiVersion := withDefault d.apiVersion documentAPIVersion
  kind := withDefault d.kind documentKind
  target := canonicalTarget d.target
  preconditions := canonicalPreconditions rt d.preconditions
  operations := rt.sortBy operationSortKey (d.operations.map canonicalOperation)
  prerequisites := deduplicatePrerequisites rt d.prerequisites
  safetyDecisions := rt.sortBy safetyDecisionSortKey (d.safetyDecisions.map fun decision =>
    { decision with
      code := canonicalSafetyDecisionCode decision.code
      operationIDs := sortedUniqueStrings decision.operationIDs })

/-- What `Validate` returns. -/
inductive DocumentError
  | unsupportedAPIVersion (apiVersion : String)
  | unsupportedKind (kind : String)
  | targetNameRequired
  | targetZoneRequired
  | operationIDRequired
  | duplicateOperationID (id : String)
  | unsupportedOperationType (type : String)
  | unknownOperation (id : String)
  | unknownRequirement (id : String)
  | selfRequirement (id : String)
  | prerequisiteCycle (id : String)
  | unknownDecisionOperation (id : String)
  deriving DecidableEq, Repr

/-- The types of `plan.go`. -/
def supportedOperationType (type : String) : Bool :=
  ["create", "update", "replace", "delete", "deactivate", "conflict"].contains type

/-- The loop over the operations; `seen` are the IDs so far. -/
def validateOperations : List String → List SanitizedOperation → Except DocumentError Unit
  | _, [] => .ok ()
  | seen, op :: rest =>
    if trimSpace op.id = "" then .error .operationIDRequired
    else if seen.contains op.id then .error (.duplicateOperationID op.id)
    else if !supportedOperationType op.type then .error (.unsupportedOperationType op.type)
    else validateOperations (op.id :: seen) rest

/-- The loop over the prerequisites. -/
def validatePrerequisites (operationIDs : List String) : List PrerequisiteEdge → Except DocumentError Unit
  | [] => .ok ()
  | e :: rest =>
    if !operationIDs.contains e.operationID then .error (.unknownOperation e.operationID)
    else if !operationIDs.contains e.requiresOperationID then .error (.unknownRequirement e.requiresOperationID)
    else if e.operationID = e.requiresOperationID then .error (.selfRequirement e.operationID)
    else validatePrerequisites operationIDs rest

/-- The state of a node in the depth-first search of `dependencyCycle`. -/
inductive Visit
  | unvisited | visiting | visited
  deriving DecidableEq, Repr

/-- The closure `visit`: an operation on a cycle, or the empty text, and the states after it.
Each level of the recursion marks one more node, so the number of nodes bounds its depth. -/
def visitDependencies (requirements : String → List String) :
    Nat → String → (String → Visit) → String × (String → Visit)
  | 0, _, state => ("", state)
  | depth + 1, id, state =>
    match state id with
    | .visiting => (id, state)
    | .visited => ("", state)
    | .unvisited =>
      let result := (requirements id).foldl
        (fun r requirement => if r.1 ≠ "" then r else visitDependencies requirements depth requirement r.2)
        ("", Function.update state id .visiting)
      if result.1 ≠ "" then result else ("", Function.update result.2 id .visited)

/-- An operation on a cycle, or no text. -/
def dependencyCycle (rt : DocumentRuntime) (edges : List PrerequisiteEdge) : String :=
  let dependencies := GoMap.groupBy PrerequisiteEdge.operationID edges
  let requirements := fun id => (dependencies.slice id).map PrerequisiteEdge.requiresOperationID
  ((rt.order dependencies.keys).foldl
    (fun r id => if r.1 ≠ "" then r else visitDependencies requirements (dependencies.keys.length + 2) id r.2)
    ("", fun _ => Visit.unvisited)).1

/-- The loop over the safety decisions. -/
def validateDecisions (operationIDs : List String) (decisions : List SafetyDecision) :
    Except DocumentError Unit :=
  match (decisions.flatMap SafetyDecision.operationIDs).find? fun id => !operationIDs.contains id with
  | some id => .error (.unknownDecisionOperation id)
  | none => .ok ()

/-- `Validate`, check by check. -/
def Document.validate (rt : DocumentRuntime) (d : Document) : Except DocumentError Unit :=
  if d.apiVersion ≠ documentAPIVersion then .error (.unsupportedAPIVersion d.apiVersion)
  else if d.kind ≠ documentKind then .error (.unsupportedKind d.kind)
  else if trimSpace d.target.name = "" then .error .targetNameRequired
  else if trimSpace d.target.zone = "" then .error .targetZoneRequired
  else do
    validateOperations [] d.operations
    let operationIDs := d.operations.map SanitizedOperation.id
    validatePrerequisites operationIDs d.prerequisites
    let cycle := dependencyCycle rt d.prerequisites
    if cycle ≠ "" then throw (.prerequisiteCycle cycle)
    validateDecisions operationIDs d.safetyDecisions

/-- `CanonicalJSON`, by way of `MarshalJSON`. -/
def Document.canonicalJSON (rt : DocumentRuntime) (d : Document) : Except DocumentError (List Char) := do
  let canonical := d.canonicalCopy rt
  canonical.validate rt
  return canonical.json

/-- `ID`: the digest of the canonical JSON. -/
def Document.id (rt : DocumentRuntime) (d : Document) : Except DocumentError String := do
  let canonical ← d.canonicalJSON rt
  return String.ofList (sha256Hex canonical)

end FortigateDns
