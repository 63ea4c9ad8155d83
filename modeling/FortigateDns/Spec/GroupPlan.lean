import FortigateDns.Spec.Plan

/-!
# What the planner decides for one DNS owner name

The abstract counterpart of `buildWithCleanupScope`: the operations for one zone/name, as a
function of the desired endpoints `D` and the rows `C` of that name alone. There are no
maps and no iteration order here. First the name as a whole is decided (`nameDecision`: a
conflict, an in-place CNAME replacement, or neither); otherwise each record is
(`recordPlan`). `Proof/PlanGroup.lean` proves that the planner's operations for a name are
these, in some order.
-/

namespace FortigateDns

open Go

/-- The DNS owner name an operation concerns: that of the desired endpoint if it has one,
else that of the current row. -/
def Operation.group (op : Operation) : String :=
  if op.desired.dnsName ≠ "" then op.desired.mutationGroupKey else op.current.mutationGroupKey

/-- The desired endpoints the planner works with: the last one per key. -/
def desiredValues (desired : List Endpoint) : List Endpoint :=
  ((indexDesired desired).range id).map Prod.snd

/-- The desired endpoints of one DNS owner name, sorted by key. -/
def desiredOf (desired : List Endpoint) (g : String) : List Endpoint :=
  ((desiredValues desired).filter fun e => e.mutationGroupKey = g).insertionSort fun a b => a.key ≤ b.key

/-- The rows of one DNS owner name. -/
def rowsOf (current : List Endpoint) (g : String) : List Endpoint :=
  current.filter fun c => c.mutationGroupKey = g

section

variable (ownerID : String) (cleanup : CleanupPolicy) (allowed : Endpoint → Bool)
variable (D C : List Endpoint)

/-- The rows of `e`'s logical record that the controller does not own. -/
def unownedSiblings (e : Endpoint) : List Endpoint :=
  (partitionOwned (C.filter fun c => c.logicalKey = e.logicalKey) ownerID).2

/-- The owned rows with `e`'s key: the one that is kept, then its duplicates. -/
def copies (e : Endpoint) : List Endpoint :=
  (partitionOwned (C.filter fun c => c.key = e.key) ownerID).1

/-- The conflict an unowned row of an excluding type causes. -/
def unownedConflict (e : Endpoint) : Option Operation :=
  (unownedCNAMEConflict e (partitionOwned C ownerID).2).map fun c =>
    { type := .conflict, desired := e, current := c, reason := reasonUnownedCNAME }

/-- A conflict of the whole name, found before any transition is looked at. -/
def nameConflict : Option Operation :=
  (desiredSetConflict D).or (D.findSome? (unownedConflict ownerID C))

/-- The one operation that settles the whole name, if there is one: a conflict, or the
in-place replacement of a CNAME transition. -/
def nameDecision : Option Operation :=
  (nameConflict ownerID D C).or
    (cnameTransition D C (C.filter fun c => c.logicalKey = (D.headD {}).logicalKey) ownerID cleanup allowed)

/-- A desired endpoint whose logical record has an unowned row. -/
def recordConflict (e : Endpoint) : Option Operation :=
  (unownedSiblings ownerID C e).head?.map fun c =>
    { type := .conflict, desired := e, current := c, reason := reasonNotOwned }

/-- The update of the kept copy, unless it already is the desired record. -/
def recordUpdate (e : Endpoint) : Option Operation :=
  (copies ownerID C e).head?.bind fun kept =>
    if kept.equalRecord e then none
    else some { type := .update, desired := e, current := kept, reason := "record differs from desired state" }

/-- Conflict or update of one desired endpoint. -/
def recordOperation (e : Endpoint) : Option Operation :=
  if unownedSiblings ownerID C e = [] then recordUpdate ownerID C e else recordConflict ownerID C e

/-- The desired endpoints without an owned row. -/
def missing : List Endpoint :=
  D.filter fun e => decide (unownedSiblings ownerID C e = []) && decide (copies ownerID C e = [])

/-- The surplus copies of one desired endpoint that may be cleaned up. -/
def duplicatesOf (e : Endpoint) : List Endpoint :=
  if unownedSiblings ownerID C e = [] then (copies ownerID C e).tail.filter allowed else []

/-- An owned row that no desired endpoint asks for and that may be cleaned up. -/
def orphaned (c : Endpoint) : Bool :=
  !(D.map Endpoint.key).contains c.key &&
    !(D.any fun e => e.logicalKey == c.logicalKey && !decide (unownedSiblings ownerID C e = [])) &&
    ownedBy c ownerID && allowed c

/-- The rows that cleanup would remove. -/
def stale : List Endpoint := D.flatMap (duplicatesOf ownerID allowed C) ++ C.filter (orphaned ownerID allowed D C)

/-- The stale row that the missing endpoint `e` overwrites in place: both are alone in their
logical record, and the policy is delete. -/
def partner (e : Endpoint) : Option Endpoint :=
  if cleanup = .delete ∧ ((missing ownerID D C).filter fun f => f.logicalKey = e.logicalKey).length = 1 then
    match (stale ownerID allowed D C).filter fun s => s.logicalKey = e.logicalKey with
    | [s] => if hasProviderID s then some s else none
    | _ => none
  else none

/-- A logical record with a replacement. -/
def paired (logical : String) : Bool :=
  (missing ownerID D C).any fun e => e.logicalKey == logical && (partner ownerID cleanup allowed D C e).isSome

/-- The in-place replacement of `e`'s partner. -/
def recordReplacement (e : Endpoint) : Option Operation :=
  (partner ownerID cleanup allowed D C e).map fun s =>
    { type := .replace, desired := e, current := s, reason := "record target changed" }

/-- The missing endpoints that are created. -/
def created : List Endpoint :=
  (missing ownerID D C).filter fun e => !paired ownerID cleanup allowed D C e.logicalKey

/-- The stale rows that no replacement takes. -/
def leftover : List Endpoint :=
  (stale ownerID allowed D C).filter fun s => !paired ownerID cleanup allowed D C s.logicalKey

/-- Cleanup waits until nothing of the name is left to create. -/
def cleanupOperations : List Operation :=
  if created ownerID cleanup allowed D C = [] then
    (leftover ownerID cleanup allowed D C).filterMap (cleanupOperation cleanup)
  else []

/-- The operations of a name that is not decided as a whole. -/
def recordPlan : List Operation :=
  D.filterMap (recordOperation ownerID C) ++
    (missing ownerID D C).filterMap (recordReplacement ownerID cleanup allowed D C) ++
    (created ownerID cleanup allowed D C).map
      (fun e => { type := .create, desired := e, reason := "record is missing" }) ++
    cleanupOperations ownerID cleanup allowed D C

/-- **The operations for one DNS owner name.** -/
def groupPlan : List Operation :=
  match nameDecision ownerID cleanup allowed D C with
  | some op => [op]
  | none => recordPlan ownerID cleanup allowed D C

end

end FortigateDns
