import FortigateDns.Spec.Client
import FortigateDns.Spec.Document

/-!
# The dependency executor

`Executor.Execute` of `internal/plan/executor.go`. The revalidator, the applier and the context
are outside: each of their answers may depend on everything that was asked before. The log of
what was asked is not part of the source; it is what the properties are about.
-/

namespace FortigateDns

open Go

/-- A call to the revalidator or to the applier, and whether it succeeded. -/
inductive ExecutorEvent
  | revalidated (operation : Option SanitizedOperation) (ok : Bool)
  | applied (operation : SanitizedOperation) (ok : Bool)
  deriving DecidableEq, Repr

/-- `Executor` and the context it runs in: the answers to come, given the calls so far. -/
structure Executor where
  revalidate : List ExecutorEvent → Option SanitizedOperation → Bool
  applyOperation : List ExecutorEvent → SanitizedOperation → Bool
  canceled : List ExecutorEvent → Bool

/-- Why nothing was executed. -/
inductive ExecutorError
  | invalidDocument (err : DocumentError)
  | initialRevalidation
  | canceled
  | noProgress
  deriving DecidableEq, Repr

/-- The results and outcomes so far, and the calls. -/
structure Execution where
  results : GoMap ApplyOutcome := ∅
  outcomes : List OperationOutcome := []
  log : List ExecutorEvent := []

/-- Enters the result of an operation. -/
def Execution.record (st : Execution) (id : String) (result : ApplyOutcome) (reason : String) : Execution :=
  { st with results := st.results.set id result, outcomes := st.outcomes ++ [⟨id, result, reason⟩] }

/-- `dependencyState`: ready, blocked, or neither. -/
def dependencyState (results : GoMap ApplyOutcome) : List String → Bool × Bool
  | [] => (true, false)
  | dependency :: rest =>
    match results.lookup dependency with
    | none => (false, false)
    | some result => if result ≠ .succeeded then (false, true) else dependencyState results rest

section

variable (x : Executor)

/-- The request for an operation that was revalidated. -/
def applyReady (operation : SanitizedOperation) (st : Execution) : Execution :=
  let ok := x.applyOperation st.log operation
  let st := { st with log := st.log ++ [ExecutorEvent.applied operation ok] }
  if ok then st.record operation.id .succeeded "" else st.record operation.id .failed "provider-request-failed"

/-- What is done with an operation that is ready. -/
def executeReady (operation : SanitizedOperation) (st : Execution) : Execution :=
  let ok := x.revalidate st.log (some operation)
  let st := { st with log := st.log ++ [ExecutorEvent.revalidated (some operation) ok] }
  if ok then applyReady x operation st else st.record operation.id .failed "precondition-drift"

/-- The variables of one sweep over the pending operations. -/
structure Sweep where
  st : Execution
  progress : Bool := false
  next : List SanitizedOperation := []

/-- The inner loop. A cancelled context ends it with what was reached. -/
def sweep (dependencies : String → List String) : List SanitizedOperation → Sweep → Except Execution Sweep
  | [], s => .ok s
  | operation :: rest, s =>
    let (ready, blocked) := dependencyState s.st.results (dependencies operation.id)
    if blocked then
      sweep dependencies rest
        { s with st := s.st.record operation.id .blocked "prerequisite-failed", progress := true }
    else if !ready then sweep dependencies rest { s with next := s.next ++ [operation] }
    else if x.canceled s.st.log then .error s.st
    else sweep dependencies rest { s with st := executeReady x operation s.st, progress := true }

variable {x}

/-- What a sweep leaves for the next one: no more than it had, and less if it got anywhere. -/
theorem sweep_next_length {dependencies : String → List String} {pending : List SanitizedOperation} {s t : Sweep}
    (h : sweep x dependencies pending s = .ok t) :
    t.next.length ≤ s.next.length + pending.length ∧
      (s.progress = false → t.progress = true → t.next.length < s.next.length + pending.length) := by
  induction pending generalizing s with
  | nil =>
    cases h
    exact ⟨Nat.le_add_right _ _, fun hf ht => absurd (hf.symm.trans ht) (by decide)⟩
  | cons operation rest ih =>
    have hcons : (operation :: rest).length = rest.length + 1 := rfl
    unfold sweep at h
    dsimp only at h
    split at h
    · have := (ih h).1
      dsimp only at this
      exact ⟨by omega, fun _ _ => by omega⟩
    · split at h
      · obtain ⟨hle, hlt⟩ := ih h
        simp only [List.length_append, List.length_singleton] at hle hlt
        refine ⟨by omega, fun hf ht => ?_⟩
        have := hlt hf ht
        omega
      · split at h
        · cases h
        · have := (ih h).1
          dsimp only at this
          exact ⟨by omega, fun _ _ => by omega⟩

variable (x)

/-- The outer loop: sweeps until nothing is pending. -/
def executeLoop (dependencies : String → List String) (pending : List SanitizedOperation) (st : Execution) :
    Execution × Option ExecutorError :=
  if pending = [] then (st, none)
  else
    match _hsweep : sweep x dependencies pending { st := st } with
    | .error st => (st, some .canceled)
    | .ok s =>
      if _hprogress : s.progress = true then executeLoop dependencies s.next s.st
      else (s.st, some .noProgress)
termination_by pending.length
decreasing_by
  have := (sweep_next_length _hsweep).2 rfl _hprogress
  simpa using this

/-- The map `dependencies`. -/
def dependenciesOf (edges : List PrerequisiteEdge) (id : String) : List String :=
  ((GoMap.groupBy PrerequisiteEdge.operationID edges).slice id).map PrerequisiteEdge.requiresOperationID

/-- `Execute`: the document is checked first. -/
def execute (rt : DocumentRuntime) (document : Document) : Execution × Option ExecutorError :=
  let canonical := document.canonicalCopy rt
  match canonical.validate rt with
  | .error err => ({}, some (.invalidDocument err))
  | .ok () =>
    let ok := x.revalidate [] none
    let st : Execution := { log := [.revalidated none ok] }
    if !ok then (st, some .initialRevalidation)
    else
      let operations := rt.sortBy SanitizedOperation.id canonical.operations
      match executeLoop x (dependenciesOf canonical.prerequisites) operations st with
      | (st, some err) => (st, some err)
      | (st, none) => ({ st with outcomes := rt.sortBy OperationOutcome.operationID st.outcomes }, none)

end

end FortigateDns
