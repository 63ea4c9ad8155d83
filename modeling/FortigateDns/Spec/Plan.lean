import FortigateDns.Go.Maps
import FortigateDns.Spec.Endpoint

/-!
# The planner

`internal/plan/plan.go`: `BuildWithCleanupScope` compares the desired endpoints with the
rows of the device and returns the operations that bring the device to the desired state.
Go leaves two things open, and so does the model: the order in which `range` visits a map
and how `sort.Slice` places elements that compare equal. Both are fields of `Runtime`.

The function is cut at its loops: each `for` of the source is one definition here, in the
order of the source, and `buildWithCleanupScope` chains them.
-/

namespace FortigateDns

open Go

/-- `OperationCreate` and its siblings. -/
inductive OperationType
  | create | update | replace | delete | deactivate | conflict
  deriving DecidableEq, Repr, Inhabited

/-- The string constant of an operation type, by which the plan is sorted. -/
def OperationType.text : OperationType → String
  | .create => "create"
  | .update => "update"
  | .replace => "replace"
  | .delete => "delete"
  | .deactivate => "deactivate"
  | .conflict => "conflict"

/-- What is done with stale rows. -/
inductive CleanupPolicy
  | delete | deactivate | keep
  deriving DecidableEq, Repr

/-- One step of a plan; what does not apply is empty. -/
structure Operation where
  type : OperationType
  desired : Endpoint := {}
  current : Endpoint := {}
  reason : String := ""
  deriving DecidableEq, Repr, Inhabited

/-- The maps that the code ranges over, one site for each such loop: first those of
`BuildWithCleanupScope`, then those of `prepareExclusiveOwnership`. -/
inductive RangeSite
  | groupDesired | desiredSets | unownedCNAME | transitions | desired | current | replacements | logical
  | ownedDesired | ownedGroups
  deriving DecidableEq

/-- What the Go runtime leaves open: map iteration orders, and the order in which equal
elements come out of `sort.Slice`. -/
structure Runtime where
  order : RangeSite → List String → List String
  order_perm : ∀ s l, (order s l).Perm l
  tieEndpoints : List Endpoint → List Endpoint
  tieEndpoints_perm : ∀ l, (tieEndpoints l).Perm l
  tieOperations : List Operation → List Operation
  tieOperations_perm : ∀ l, (tieOperations l).Perm l

/-- The runtime that keeps every order as it is. -/
def Runtime.plain : Runtime where
  order _ l := l
  order_perm _ _ := List.Perm.refl _
  tieEndpoints l := l
  tieEndpoints_perm _ := List.Perm.refl _
  tieOperations l := l
  tieOperations_perm _ := List.Perm.refl _

/-- `for k, v := range m` at one of the sites. -/
def Runtime.range {β : Type} (rt : Runtime) (site : RangeSite) (m : GoMap β) : List (String × β) :=
  m.range (rt.order site)

/-- White space around owners is ignored. -/
def ownedBy (endpoint : Endpoint) (ownerID : String) : Bool :=
  trimSpace endpoint.ownerID == trimSpace ownerID

/-- A provider ID that is not blank. -/
def hasProviderID (endpoint : Endpoint) : Bool := trimSpace endpoint.providerID != ""

/-- The order of `partitionOwned`: rows with a provider ID first, then by provider ID. -/
def ownedLE (a b : Endpoint) : Bool :=
  if hasProviderID a != hasProviderID b then hasProviderID a else decide (a.providerID ≤ b.providerID)

/-- `partitionOwned`: the owned rows, stably sorted, and the others. -/
def partitionOwned (endpoints : List Endpoint) (ownerID : String) : List Endpoint × List Endpoint :=
  ((endpoints.filter fun e => ownedBy e ownerID).insertionSort fun a b => ownedLE a b,
   endpoints.filter fun e => !ownedBy e ownerID)

/-- Sorted by key; ties as the runtime breaks them. -/
def sortEndpoints (rt : Runtime) (endpoints : List Endpoint) : List Endpoint :=
  (rt.tieEndpoints endpoints).insertionSort fun a b => a.key ≤ b.key

/-- A CNAME stands alone at its name. -/
def cnameTypesConflict (first second : String) : Bool :=
  first != second && (first == recordCNAME || second == recordCNAME)

/-- `desiredSetHasMultipleCNAMETargets`, with the number of CNAME endpoints seen so far. -/
def hasMultipleCNAMETargets (cnames : Nat) : List Endpoint → Bool
  | [] => false
  | e :: rest =>
    if e.recordType ≠ recordCNAME then hasMultipleCNAMETargets cnames rest
    else if 1 < cnames + 1 ∨ 1 < e.targets.length then true
    else hasMultipleCNAMETargets (cnames + 1) rest

/-- A name has one CNAME. -/
def desiredSetHasMultipleCNAMETargets (endpoints : List Endpoint) : Bool :=
  hasMultipleCNAMETargets 0 endpoints

/-- Every pair is looked at. -/
def desiredSetHasCNAMEConflict : List Endpoint → Bool
  | [] => false
  | e :: rest =>
    rest.any (fun f => cnameTypesConflict e.recordType f.recordType) || desiredSetHasCNAMEConflict rest

/-- A CNAME is to replace another type, or the other way. -/
def hasCNAMETypeTransition (desired current : List Endpoint) : Bool :=
  desired.any fun d => current.any fun c => cnameTypesConflict d.recordType c.recordType

/-- The CNAME is to have another target. -/
def needsCNAMETargetReplacement (desired current : List Endpoint) : Bool :=
  match desired with
  | [d] =>
    if d.recordType ≠ recordCNAME then false
    else if current.any fun r => r.key == d.key then false
    else current.any fun r => r.recordType == recordCNAME
  | _ => false

/-- `unownedCNAMEConflict`: the first unowned row whose type excludes the desired one. -/
def unownedCNAMEConflict (desired : Endpoint) (unowned : List Endpoint) : Option Endpoint :=
  unowned.find? fun c => cnameTypesConflict desired.recordType c.recordType

/-- `removeEndpoint`: drops the first element with the key of `target`. -/
def removeEndpoint (endpoints : List Endpoint) (target : Endpoint) : List Endpoint :=
  endpoints.eraseP fun e => e.key == target.key

/-- Cleanup comes last. -/
def operationPhaseRank : OperationType → Nat
  | .conflict => 0
  | .update | .replace => 1
  | .create => 2
  | .delete | .deactivate => 3

/-- The record that an operation is about. -/
def operationKey (operation : Operation) : String :=
  if operation.desired.dnsName ≠ "" then operation.desired.key else operation.current.key

/-- The comparison the plan is sorted by: phase rank, then type, then record key. -/
def operationLE (a b : Operation) : Bool :=
  if operationPhaseRank a.type ≠ operationPhaseRank b.type then
    operationPhaseRank a.type < operationPhaseRank b.type
  else if a.type ≠ b.type then a.type.text < b.type.text
  else operationKey a ≤ operationKey b

def reasonMixedCNAME : String :=
  "desired records contain a CNAME and another record type for the same DNS name"
def reasonCNAMEMultipleTargets : String :=
  "desired records contain more than one CNAME target for the same DNS name"
def reasonUnownedCNAME : String := "CNAME conflicts with an unowned record for this DNS name"
def reasonNotOwned : String := "logical record is not owned by this controller"
def reasonTypeTransition : String :=
  "CNAME record-type transition requires exactly one owned current row with a provider ID"
def reasonTargetTransition : String := "CNAME target transition cannot retain the current record"

/-- Lines 62-65: the last desired endpoint per key. -/
def indexDesired (desired : List Endpoint) : GoMap Endpoint :=
  desired.foldl (fun m e => m.set e.normalize.key e.normalize) ∅

/-- Lines 72-77: the desired endpoints per DNS owner name, sorted by key. -/
def groupDesired (rt : Runtime) (desiredByKey : GoMap Endpoint) : GoMap (List Endpoint) :=
  let groups := GoMap.groupBy Endpoint.mutationGroupKey ((rt.range .groupDesired desiredByKey).map Prod.snd)
  groups.keys.foldl (fun m g => m.set g (sortEndpoints rt (groups.slice g))) ∅

/-- The conflict a desired set alone causes. -/
def desiredSetConflict (endpoints : List Endpoint) : Option Operation :=
  if desiredSetHasCNAMEConflict endpoints then
    some { type := .conflict, desired := endpoints.headD {}, reason := reasonMixedCNAME }
  else if desiredSetHasMultipleCNAMETargets endpoints then
    some { type := .conflict, desired := endpoints.headD {}, reason := reasonCNAMEMultipleTargets }
  else none

/-- Lines 85-99. -/
def desiredSetConflicts (rt : Runtime) (desiredByGroup : GoMap (List Endpoint)) : GoMap Operation :=
  (rt.range .desiredSets desiredByGroup).foldl
    (fun m (p : String × List Endpoint) => ((desiredSetConflict p.2).map (m.set p.1)).getD m) ∅

/-- The body of lines 100-116: an unowned row at the name excludes the desired type. The
conflict with the smallest operation key is kept for each name. -/
def unownedConflictStep (currentByGroup : GoMap (List Endpoint)) (ownerID : String)
    (conflicts : GoMap Operation) (e : Endpoint) : GoMap Operation :=
  let group := e.mutationGroupKey
  match unownedCNAMEConflict e (partitionOwned (currentByGroup.slice group) ownerID).2 with
  | none => conflicts
  | some c =>
    let candidate : Operation :=
      { type := .conflict, desired := e, current := c, reason := reasonUnownedCNAME }
    match conflicts.lookup group with
    | none => conflicts.set group candidate
    | some existing =>
      if operationKey candidate < operationKey existing then conflicts.set group candidate else conflicts

/-- Lines 100-116. -/
def unownedConflicts (rt : Runtime) (desiredByKey : GoMap Endpoint)
    (currentByGroup : GoMap (List Endpoint)) (ownerID : String) (conflicts : GoMap Operation) :
    GoMap Operation :=
  ((rt.range .unownedCNAME desiredByKey).map Prod.snd).foldl
    (unownedConflictStep currentByGroup ownerID) conflicts

/-- What lines 126-169 decide for one DNS owner name without a conflict so far: nothing,
an in-place replacement (`.replace`) or a conflict. -/
def cnameTransition (desiredEndpoints groupRows logicalRows : List Endpoint) (ownerID : String)
    (cleanup : CleanupPolicy) (cleanupAllowed : Endpoint → Bool) : Option Operation :=
  let owned := (partitionOwned groupRows ownerID).1
  let targetTransition := needsCNAMETargetReplacement desiredEndpoints owned
  if !targetTransition && !hasCNAMETypeTransition desiredEndpoints owned then none
  else
    let desired := desiredEndpoints.headD {}
    let logicalUnowned := (partitionOwned logicalRows ownerID).2
    if desiredEndpoints.length = 1 ∧ 0 < logicalUnowned.length then
      some { type := .conflict, desired := desired, current := logicalUnowned.headD {}, reason := reasonNotOwned }
    else if desiredEndpoints.length = 1 ∧ owned.length = 1 ∧ hasProviderID (owned.headD {}) ∧
        cleanupAllowed (owned.headD {}) ∧ (!targetTransition ∨ cleanup = .delete) then
      some { type := .replace, desired := desired, current := owned.headD {},
             reason := if targetTransition then "record target changed" else "record type changed" }
    else
      some { type := .conflict, desired := desired, current := owned.headD {},
             reason := if targetTransition then reasonTargetTransition else reasonTypeTransition }

/-- The body of lines 121-170, for the decision `transition` of one name: conflicts and
in-place replacements go to their own maps. -/
def recordTransition (st : GoMap Operation × GoMap Operation) (group : String)
    (transition : Option Operation) : GoMap Operation × GoMap Operation :=
  if (st.1.lookup group).isSome then st
  else
    match transition with
    | none => st
    | some op => if op.type = .replace then (st.1, st.2.set group op) else (st.1.set group op, st.2)

/-- Lines 121-170: the name-level conflicts and the in-place CNAME replacements. -/
def cnameTransitions (rt : Runtime) (desiredByGroup currentByGroup currentByLogical : GoMap (List Endpoint))
    (ownerID : String) (cleanup : CleanupPolicy) (cleanupAllowed : Endpoint → Bool)
    (conflicts : GoMap Operation) : GoMap Operation × GoMap Operation :=
  (rt.range .transitions desiredByGroup).foldl (fun st (p : String × List Endpoint) =>
    recordTransition st p.1 (cnameTransition p.2 (currentByGroup.slice p.1)
      (currentByLogical.slice (p.2.headD {}).logicalKey) ownerID cleanup cleanupAllowed))
    (conflicts, ∅)

/-- The variables the loop over the desired endpoints fills. -/
structure PlanState where
  operations : List Operation := []
  createCandidates : List Endpoint := []
  staleCandidates : List Endpoint := []
  conflictLogicalKeys : List String := []
  reported : List String := []

/-- The body of lines 172-218 for one desired endpoint. -/
def planDesired (currentByKey currentByLogical : GoMap (List Endpoint)) (ownerID : String)
    (cleanupAllowed : Endpoint → Bool) (conflicts replacements : GoMap Operation)
    (st : PlanState) (key : String) (e : Endpoint) : PlanState :=
  let group := e.mutationGroupKey
  match conflicts.lookup group with
  | some op =>
    if group ∈ st.reported then st
    else { st with operations := st.operations ++ [op], reported := st.reported ++ [group] }
  | none =>
    if (replacements.lookup group).isSome then st
    else
      match (partitionOwned (currentByLogical.slice e.logicalKey) ownerID).2 with
      | c :: _ =>
        { st with
          operations := st.operations ++
            [{ type := .conflict, desired := e, current := c, reason := reasonNotOwned }]
          conflictLogicalKeys := st.conflictLogicalKeys ++ [e.logicalKey] }
      | [] =>
        match (partitionOwned (currentByKey.slice key) ownerID).1 with
        | [] => { st with createCandidates := st.createCandidates ++ [e] }
        | kept :: duplicates =>
          { st with
            operations := if kept.equalRecord e then st.operations else st.operations ++
              [{ type := .update, desired := e, current := kept, reason := "record differs from desired state" }]
            staleCandidates := st.staleCandidates ++ duplicates.filter cleanupAllowed }

/-- Lines 172-218. -/
def planDesiredAll (rt : Runtime) (desiredByKey : GoMap Endpoint)
    (currentByKey currentByLogical : GoMap (List Endpoint)) (ownerID : String)
    (cleanupAllowed : Endpoint → Bool) (conflicts replacements : GoMap Operation) : PlanState :=
  (rt.range .desired desiredByKey).foldl (fun st (p : String × Endpoint) =>
    planDesired currentByKey currentByLogical ownerID cleanupAllowed conflicts replacements st p.1 p.2) {}

/-- The rows lines 224-238 collect from one key. -/
def staleRows (desiredByKey : GoMap Endpoint) (ownerID : String) (cleanupAllowed : Endpoint → Bool)
    (conflicts replacements : GoMap Operation) (conflictLogicalKeys : List String)
    (key : String) (rows : List Endpoint) : List Endpoint :=
  if (desiredByKey.lookup key).isSome then []
  else rows.filter fun c =>
    !(conflicts.lookup c.mutationGroupKey).isSome && !(replacements.lookup c.mutationGroupKey).isSome &&
      !conflictLogicalKeys.contains c.logicalKey && ownedBy c ownerID && cleanupAllowed c

/-- The variables the pairing loop changes. -/
structure PairState where
  operations : List Operation
  createCandidates : List Endpoint
  staleCandidates : List Endpoint

/-- The body of lines 254-270 for one logical record. -/
def pairLogical (conflictLogicalKeys : List String) (staleByLogical : GoMap (List Endpoint))
    (st : PairState) (logical : String) (creates : List Endpoint) : PairState :=
  if conflictLogicalKeys.contains logical then st
  else
    match creates, staleByLogical.slice logical with
    | [c], [s] =>
      if !hasProviderID s then st
      else
        { operations := st.operations ++
            [{ type := .replace, desired := c, current := s, reason := "record target changed" }]
          createCandidates := removeEndpoint st.createCandidates c
          staleCandidates := removeEndpoint st.staleCandidates s }
    | _, _ => st

/-- Lines 251-271: under the delete policy, a single stale row of a logical record with a
single missing target is overwritten in place. -/
def pairReplacements (rt : Runtime) (cleanup : CleanupPolicy) (conflictLogicalKeys : List String)
    (st : PairState) : PairState :=
  if cleanup = .delete then
    let createByLogical := GoMap.groupBy Endpoint.logicalKey st.createCandidates
    let staleByLogical := GoMap.groupBy Endpoint.logicalKey st.staleCandidates
    (rt.range .logical createByLogical).foldl (fun st (p : String × List Endpoint) =>
      pairLogical conflictLogicalKeys staleByLogical st p.1 p.2) st
  else st

/-- Lines 291-304: the operation that cleans up one stale row, if any. -/
def cleanupOperation (cleanup : CleanupPolicy) (row : Endpoint) : Option Operation :=
  match cleanup with
  | .delete => some { type := .delete, current := row, reason := "managed record is stale" }
  | .deactivate =>
    if row.disabled then none
    else some { type := .deactivate, desired := { row with disabled := true }, current := row,
                reason := "managed record is stale" }
  | .keep => none

/-- Lines 273-305: creates for what is still missing, and cleanup for every name without a
pending create. -/
def finishPlan (cleanup : CleanupPolicy) (st : PairState) : List Operation :=
  let pendingCreateGroups := st.createCandidates.map Endpoint.mutationGroupKey
  st.operations ++
    st.createCandidates.map (fun e => { type := .create, desired := e, reason := "record is missing" }) ++
    (st.staleCandidates.filter fun c => !pendingCreateGroups.contains c.mutationGroupKey).filterMap
      (cleanupOperation cleanup)

/-- `sort.Slice(operations, ...)`. -/
def sortOperations (rt : Runtime) (operations : List Operation) : List Operation :=
  (rt.tieOperations operations).insertionSort fun a b => operationLE a b

/-- `BuildWithCleanupScope`, pass by pass. -/
def buildWithCleanupScope (rt : Runtime) (desired current : List Endpoint) (ownerID : String)
    (cleanup : CleanupPolicy) (cleanupAllowed : Endpoint → Bool) : List Operation :=
  let rows := current.map Endpoint.normalize
  let desiredByKey := indexDesired desired
  let currentByKey := GoMap.groupBy Endpoint.key rows
  let currentByLogical := GoMap.groupBy Endpoint.logicalKey rows
  let currentByGroup := GoMap.groupBy Endpoint.mutationGroupKey rows
  let desiredByGroup := groupDesired rt desiredByKey
  let setConflicts := desiredSetConflicts rt desiredByGroup
  let unowned := unownedConflicts rt desiredByKey currentByGroup ownerID setConflicts
  let (conflicts, replacements) :=
    cnameTransitions rt desiredByGroup currentByGroup currentByLogical ownerID cleanup cleanupAllowed unowned
  let st := planDesiredAll rt desiredByKey currentByKey currentByLogical ownerID cleanupAllowed
    conflicts replacements
  let stale := st.staleCandidates ++ (rt.range .current currentByKey).flatMap fun p =>
    staleRows desiredByKey ownerID cleanupAllowed conflicts replacements st.conflictLogicalKeys p.1 p.2
  let operations := st.operations ++ (rt.range .replacements replacements).map Prod.snd
  let paired := pairReplacements rt cleanup st.conflictLogicalKeys
    { operations := operations, createCandidates := st.createCandidates, staleCandidates := stale }
  sortOperations rt (finishPlan cleanup paired)

/-- `Build`: every row may be cleaned up. -/
def build (rt : Runtime) (desired current : List Endpoint) (ownerID : String) (cleanup : CleanupPolicy) :
    List Operation :=
  buildWithCleanupScope rt desired current ownerID cleanup fun _ => true

end FortigateDns
