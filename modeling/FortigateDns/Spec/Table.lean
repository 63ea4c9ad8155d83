import FortigateDns.Spec.Plan

/-!
# Provider tables

The rows of the device as the planner reads them, and what executing an operation does to
them: a create appends a row under an ID the device picks, an update, replace or deactivate
overwrites the record of the row with the current endpoint's provider ID, and a delete
removes it.
-/

namespace FortigateDns

open Go

/-- A table the planner may be given: well-formed rows with distinct, non-blank IDs. -/
structure TableOK (rows : List Endpoint) : Prop where
  wf : ∀ c ∈ rows, c.WellFormed
  ids : (rows.map Endpoint.providerID).Nodup
  nonBlank : ∀ c ∈ rows, hasProviderID c = true

instance (rows : List Endpoint) : Decidable (TableOK rows) :=
  decidable_of_iff ((∀ c ∈ rows, c.WellFormed) ∧ (rows.map Endpoint.providerID).Nodup ∧
      ∀ c ∈ rows, hasProviderID c = true)
    ⟨fun ⟨a, b, c⟩ => ⟨a, b, c⟩, fun ⟨a, b, c⟩ => ⟨a, b, c⟩⟩

/-- The operations that change a row that exists. -/
def OperationType.mutatesRow : OperationType → Bool
  | .update | .replace | .delete | .deactivate => true
  | .create | .conflict => false

/-- The operations after which a row no longer publishes what it did. -/
def OperationType.destroysRow : OperationType → Bool
  | .replace | .delete | .deactivate => true
  | .create | .update | .conflict => false

/-- `isCleanupOperation`: the operations that remove what is no longer desired. -/
def isCleanupOperation : OperationType → Bool
  | .delete | .deactivate => true
  | .create | .update | .replace | .conflict => false

/-- A row after a PUT of `desired`: the requested record under the same ID and owner. -/
def overwrite (row desired : Endpoint) : Endpoint :=
  { row with
    dnsName := desired.dnsName, recordType := desired.recordType, targets := desired.targets
    ttl := desired.ttl, zone := desired.zone, disabled := desired.disabled }

/-- A row after a POST of `desired`. -/
def createdRow (ownerID id : String) (desired : Endpoint) : Endpoint :=
  { desired with ownerID := ownerID, providerID := id }

/-- What an operation leaves of a row. -/
def Operation.effect (op : Operation) (row : Endpoint) : Option Endpoint :=
  if op.type.mutatesRow = true ∧ row.providerID = op.current.providerID then
    if op.type = .delete then none else some (overwrite row op.desired)
  else some row

/-- The table after one executed operation; `id` is the device's choice for a new row. -/
def applyOperation (ownerID : String) (table : List Endpoint) (op : Operation) (id : String) :
    List Endpoint :=
  if op.type = .create then table ++ [createdRow ownerID id op.desired]
  else table.filterMap op.effect

/-- The table after a run: the executed operations in order, each with the ID the device
would give to a new row. -/
def applyAll (ownerID : String) (table : List Endpoint) (run : List (Operation × String)) : List Endpoint :=
  run.foldl (fun t p => applyOperation ownerID t p.1 p.2) table

/-- The device gives every new row an ID that is neither blank nor in use. -/
def FreshIDs (ownerID : String) : List Endpoint → List (Operation × String) → Prop
  | _, [] => True
  | table, (op, id) :: run =>
    (op.type = .create → trimSpace id ≠ "" ∧ id ∉ table.map Endpoint.providerID) ∧
      FreshIDs ownerID (applyOperation ownerID table op id) run

instance decidableFreshIDs (ownerID : String) :
    ∀ (table : List Endpoint) (run : List (Operation × String)), Decidable (FreshIDs ownerID table run)
  | _, [] => isTrue trivial
  | table, (op, id) :: run =>
    have := decidableFreshIDs ownerID (applyOperation ownerID table op id) run
    inferInstanceAs (Decidable ((op.type = .create → trimSpace id ≠ "" ∧ id ∉ table.map Endpoint.providerID) ∧
      FreshIDs ownerID (applyOperation ownerID table op id) run))

/-- What took effect of a list of attempts: an attempt that fails has no ID. -/
def executed (attempts : List (Operation × Option String)) : List (Operation × String) :=
  attempts.filterMap fun p => p.2.map fun id => (p.1, id)

/-- Every zone/name that has a CNAME row, enabled or disabled, has exactly one row. -/
def CNAMEConsistent (table : List Endpoint) : Prop :=
  ∀ r ∈ table, r.recordType = recordCNAME →
    (table.filter fun c => c.zone = r.zone ∧ c.dnsName = r.dnsName).length = 1

instance (table : List Endpoint) : Decidable (CNAMEConsistent table) := by
  unfold CNAMEConsistent; infer_instance

end FortigateDns
