import FortigateDns.Spec.Client
import FortigateDns.Spec.Document

/-!
# What the runner makes of apply results

`internal/controller/runner.go`, lines 334-342 and 549-604: how the runner judges the outcomes
that a client returns for a plan. A result is one of the three texts by its type, so the
comparison with all three has no counterpart.
-/

namespace FortigateDns

open Go

/-- `SanitizeOperation(operation).ID`. -/
def Operation.sanitizedID (operation : Operation) : String := (sanitizeOperation operation).id

/-- The map `expected`. -/
def expectedOperations (operations : List Operation) : GoMap Operation :=
  operations.foldl (fun m operation => m.set operation.sanitizedID operation) ∅

/-- What the loop of `validateOperationOutcomes` accepts as the outcome of an operation. -/
def acceptableOutcome (dryRun : Bool) (operation : Operation) (outcome : OperationOutcome) : Bool :=
  !(dryRun && outcome.result == .succeeded) &&
    !(operation.type == .conflict && (outcome.result != .blocked || outcome.reason != "planning-conflict"))

/-- One iteration of that loop; the state is `seen` and `valid`. -/
def validateOutcome (expected : GoMap Operation) (dryRun : Bool) (st : List String × Bool)
    (outcome : OperationOutcome) : List String × Bool :=
  match expected.lookup outcome.operationID with
  | none => (st.1, false)
  | some operation =>
    if st.1.contains outcome.operationID then (st.1, false)
    else (outcome.operationID :: st.1, st.2 && acceptableOutcome dryRun operation outcome)

/-- Each operation has one outcome. -/
def validateOperationOutcomes (operations : List Operation) (outcomes : List OperationOutcome) (dryRun : Bool) :
    List OperationOutcome × Bool :=
  let expected := expectedOperations operations
  let st := outcomes.foldl (validateOutcome expected dryRun) ([], expected.keys.length == operations.length)
  (outcomes, st.2 && expected.keys.all fun id => st.1.contains id)

/-- `byID[id]`: the last outcome with the ID. -/
def outcomeByID (outcomes : List OperationOutcome) (id : String) : Option OperationOutcome :=
  outcomes.reverse.find? fun outcome => outcome.operationID = id

/-- In a dry run nothing was to be done. -/
def operationExecutionSucceeded (operations : List Operation) (outcomes : List OperationOutcome) (dryRun : Bool) :
    Bool :=
  operations.all fun operation =>
    match outcomeByID outcomes operation.sanitizedID with
    | none => false
    | some outcome =>
      dryRun && outcome.result == .blocked && outcome.reason == "dry-run" || outcome.result == .succeeded

/-- Not all operations are conflicts. -/
def hasActionableOperation (operations : List Operation) : Bool := operations.any fun op => op.type != .conflict

end FortigateDns
