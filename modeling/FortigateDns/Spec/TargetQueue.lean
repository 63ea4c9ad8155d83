import FortigateDns.Conc.Labelled
import FortigateDns.Conc.WorkQueue
import FortigateDns.Go.Validation

/-!
# The target queue

`internal/workqueue/queue.go` as a state machine. A step is one section that holds the mutex, one
call of the underlying queue outside of it, one goroutine of a timer that goes on, or time that
passes. Calls that are between two of their sections are part of the state, and so are the
goroutines that wait for timers; one whose timer was stopped may still find it expired.

The delays of the rate limiter are a parameter: nothing here depends on how they grow.
-/

namespace FortigateDns

open Go Conc

/-- Namespace and name of a target. -/
structure TargetKey where
  targetNamespace : String
  name : String
  deriving DecidableEq, Repr

/-- Both are names that Kubernetes accepts. -/
def TargetKey.valid (key : TargetKey) : Bool :=
  isDNS1123Label (trimSpace key.targetNamespace) && isDNS1123Subdomain (trimSpace key.name)

/-- The map that a timer belongs to: `pending` or `retrying`. -/
inductive TimerKind
  | debounce | retry
  deriving DecidableEq, Repr

/-- `pendingDebounce`. -/
structure PendingTimer where
  generation : Nat
  deadline : Int
  deriving DecidableEq, Repr

/-- The goroutine of `waitForDebounce` or `waitForRetry`. -/
structure Waiter where
  kind : TimerKind
  key : TargetKey
  generation : Nat
  deadline : Int
  deriving DecidableEq, Repr

/-- A call that is under way, by what it does next. -/
inductive QueueCall
  | enqueue (key : TargetKey) (debounce : Int)
  | enqueueLocked (key : TargetKey) (debounce : Int)
  | periodic (key : TargetKey)
  | periodicLocked (key : TargetKey)
  | got (key : TargetKey)
  | forget (key : TargetKey)
  deriving DecidableEq, Repr

/-- How `Complete` took the result. -/
inductive Completion
  | succeeded | retried | exhausted | forgotten
  deriving DecidableEq, Repr

/-- What the queue reads of its configuration: `delay key n` is the delay that the rate limiter
gives the key after `n` failures. -/
structure QueueConfig where
  debounce : Int
  maxRetries : Nat
  maxBackoff : Int
  delay : TargetKey → Nat → Int

/-- The debounce of an event, where `DebounceFor` may give another. -/
def QueueConfig.debounceOf (cfg : QueueConfig) (debounceFor : Option Int) : Int :=
  match debounceFor with
  | some debounce => if 0 < debounce then debounce else cfg.debounce
  | none => cfg.debounce

/-- The state. `failures` is the counter of the rate limiter, `closed` the generations whose
`cancel` channel is closed, and `stopped` says that `stopCh` is. -/
structure TargetQueue where
  queue : WorkQueue TargetKey
  failures : TargetKey → Nat
  deleted : TargetKey → Bool
  timers : TimerKind → TargetKey → Option PendingTimer
  held : TargetKey → Option Int
  periodic : TargetKey → Bool
  nextTimer : Nat
  closed : List Nat
  stopped : Bool
  waiters : List Waiter
  calls : List QueueCall
  now : Int

namespace TargetQueue

/-- Nothing queued, held or scheduled. -/
def new (now : Int) : TargetQueue where
  queue := .empty
  failures _ := 0
  deleted _ := false
  timers _ _ := none
  held _ := none
  periodic _ := false
  nextTimer := 0
  closed := []
  stopped := false
  waiters := []
  calls := []
  now := now

variable (cfg : QueueConfig) (s : TargetQueue) (key : TargetKey)

/-- `Add` of the work queue. -/
def add : TargetQueue := { s with queue := s.queue.add key }

/-- `Done` of the work queue. -/
def done : TargetQueue := { s with queue := s.queue.done key }

/-- `Forget` of the rate limiter. -/
def resetFailures : TargetQueue := { s with failures := Function.update s.failures key 0 }

/-- Replaces the timer of one kind. -/
def setTimer (kind : TimerKind) (timer : Option PendingTimer) : TargetQueue :=
  { s with timers := Function.update s.timers kind (Function.update (s.timers kind) key timer) }

/-- Stops a timer, if there is one. -/
def stopTimer (kind : TimerKind) : TargetQueue :=
  match s.timers kind key with
  | none => s
  | some timer => { s.setTimer key kind none with closed := timer.generation :: s.closed }

/-- The retry is not due any more. -/
def stopRetryLocked : TargetQueue := s.stopTimer key .retry

/-- Starts a timer and its goroutine. -/
def startTimer (kind : TimerKind) (delay now : Int) : TargetQueue :=
  { s.setTimer key kind (some ⟨s.nextTimer + 1, now + delay⟩) with
    nextTimer := s.nextTimer + 1
    waiters := ⟨kind, key, s.nextTimer + 1, now + delay⟩ :: s.waiters }

/-- Puts the key into the queue, now or after the delay. -/
def addAfter (kind : TimerKind) (delay now : Int) : TargetQueue :=
  if delay ≤ 0 then s.add key else s.startTimer key kind delay now

/-- A later debounce timer serves as the retry. -/
def scheduleRetryLocked (delay now : Int) : Bool × TargetQueue :=
  if s.deleted key || s.queue.shuttingDown then (false, s)
  else
    match s.timers .debounce key with
    | some pending =>
      if now + delay ≤ pending.deadline then (true, s)
      else (true, ((s.stopTimer key .debounce).stopRetryLocked key).addAfter key .retry delay now)
    | none => (true, (s.stopRetryLocked key).addAfter key .retry delay now)

/-- The first section of `Enqueue`; without an answer the second follows. -/
def enqueueRead (debounce : Int) : Option Bool × TargetQueue :=
  if s.deleted key then (some false, s)
  else if (s.timers .debounce key).isSome then (some true, s)
  else if debounce = 0 ∧ s.timers .retry key = none ∧ s.held key = none then (some true, s.add key)
  else (none, s)

/-- The delay of an event, and the hold that is left. -/
def heldDelay (debounce now : Int) : Int × TargetQueue :=
  match s.held key with
  | none => (debounce, s)
  | some limit =>
    if debounce < limit - now then (limit - now, s)
    else if limit - now ≤ 0 then (debounce, { s with held := Function.update s.held key none })
    else (debounce, s)

/-- The end of `Enqueue`. -/
def enqueueDelayed (debounce now : Int) : TargetQueue :=
  (s.heldDelay key debounce now).2.addAfter key .debounce (s.heldDelay key debounce now).1 now

/-- The second section of `Enqueue`. -/
def enqueueLocked (debounce now : Int) : Bool × TargetQueue :=
  if s.deleted key then (false, s)
  else if (s.timers .debounce key).isSome then (true, s)
  else
    match s.timers .retry key with
    | some retry =>
      if debounce ≤ retry.deadline - now then (true, s)
      else (true, (s.stopRetryLocked key).enqueueDelayed key debounce now)
    | none => (true, s.enqueueDelayed key debounce now)

/-- The second section of `EnqueuePeriodic`; the first only looks at `deleted`. -/
def enqueuePeriodicLocked : Bool × TargetQueue :=
  if s.deleted key then (false, s)
  else
    let t := (s.stopTimer key .debounce).stopRetryLocked key
    (true, { t with periodic := Function.update t.periodic key true }.add key)

/-- The target exists again. -/
def activateTarget : TargetQueue := { s with deleted := Function.update s.deleted key false }

/-- The section of `ForgetTarget`. -/
def forgetLocked : TargetQueue :=
  ({ s with
      deleted := Function.update s.deleted key true
      held := Function.update s.held key none
      periodic := Function.update s.periodic key false }.stopTimer key .debounce).stopRetryLocked key

/-- The section of `Get` for a key from the queue, which says whether the key is delivered. The
clock is read for the hold, and once more for a timer. -/
def getLocked (now later : Int) : Bool × TargetQueue :=
  if s.deleted key then (false, (s.resetFailures key).done key)
  else
    let periodic := s.periodic key
    let t := { s with periodic := Function.update s.periodic key false }
    let t := if periodic then t.stopRetryLocked key else t
    match t.held key with
    | none => (true, t)
    | some limit =>
      if periodic = false ∧ 0 < limit - now then (false,
        (t.scheduleRetryLocked key (limit - now) later).2.done key)
      else (true, t)

/-- The backoff of a failure. -/
def backoff : Int := if cfg.maxRetries ≤ s.failures key then cfg.maxBackoff else cfg.delay key (s.failures key)

/-- `Complete`; the clock is read again before a timer is set. -/
def complete (failed : Bool) (now later : Int) : Completion × TargetQueue :=
  if s.deleted key then (.forgotten, (s.resetFailures key).done key)
  else if failed = false then
    (.succeeded, ({ s with held := Function.update s.held key none }.resetFailures key).done key)
  else
    let t := { s with held := Function.update s.held key (some (now + s.backoff cfg key)) }
    if cfg.maxRetries ≤ s.failures key then
      (.exhausted, (if (t.timers .debounce key).isSome then (t.scheduleRetryLocked key
        (s.backoff cfg key) later).2
        else t).done key)
    else
      let r := { t with failures := Function.update t.failures key (t.failures key + 1) }.scheduleRetryLocked key
        (s.backoff cfg key) later
      if r.1 then (.retried, r.2.done key) else (.forgotten, (r.2.resetFailures key).done key)

/-- The section of `waitForDebounce` and `waitForRetry`. -/
def expire (kind : TimerKind) (generation : Nat) : TargetQueue :=
  match s.timers kind key with
  | none => s
  | some timer =>
    if timer.generation ≠ generation then s
    else
      let t := s.setTimer key kind none
      if t.deleted key || t.queue.shuttingDown then t else t.add key

/-- The section of `ShutDown`. -/
def shutDownLocked : TargetQueue := { s with timers := fun _ _ => none, stopped := true }

/-- A call begins or goes on. -/
def push (call : QueueCall) : TargetQueue := { s with calls := call :: s.calls }

/-- A call takes its next section. -/
def pop (call : QueueCall) : TargetQueue := { s with calls := s.calls.erase call }

/-- The clock moves. -/
def atTime (now : Int) : TargetQueue := { s with now := now }

end TargetQueue

/-- What is seen of a step: `Enqueue` or `EnqueuePeriodic` returns true, `Get` delivers a key,
`Complete` returns. It fails when it is given an error for a target that is not forgotten, with the
time at which it read the clock and the backoff. -/
inductive QueueLabel
  | accepted (key : TargetKey) (periodic : Bool)
  | delivered (key : TargetKey) (time : Int)
  | failed (key : TargetKey) (result : Completion) (time backoff : Int)
  | completed (key : TargetKey) (result : Completion)
  | forgotten (key : TargetKey)
  | internal
  deriving DecidableEq, Repr

/-- The label of a call of `Enqueue` or `EnqueuePeriodic` that returns. -/
def answered (key : TargetKey) (periodic answer : Bool) : QueueLabel :=
  if answer then .accepted key periodic else .internal

/-- The label of `Complete`. -/
def TargetQueue.completedLabel (cfg : QueueConfig) (s : TargetQueue) (key : TargetKey) (failed : Bool)
    (now later : Int) :
    QueueLabel :=
  if failed && !s.deleted key then .failed key (s.complete cfg key failed now later).1 now (s.backoff cfg key)
  else .completed key (s.complete cfg key failed now later).1

/-- **One step.** -/
inductive QueueStep (cfg : QueueConfig) : TargetQueue → QueueLabel → TargetQueue → Prop
  | tick (s : TargetQueue) (now : Int) (h : s.now ≤ now) : QueueStep cfg s .internal (s.atTime now)
  | callEnqueue (s : TargetQueue) (key : TargetKey) (debounceFor : Option Int) (hvalid : key.valid = true)
      (hopen : s.queue.shuttingDown = false) :
      QueueStep cfg s .internal (s.push (.enqueue key (cfg.debounceOf debounceFor)))
  | callPeriodic (s : TargetQueue) (key : TargetKey) (hvalid : key.valid = true)
      (hopen : s.queue.shuttingDown = false) :
      QueueStep cfg s .internal (s.push (.periodic key))
  | enqueueAnswered (s t : TargetQueue) (key : TargetKey) (debounce : Int) (answer : Bool)
      (hcall : .enqueue key debounce ∈ s.calls) (h : s.enqueueRead key debounce = (some answer, t)) :
      QueueStep cfg s (answered key false answer) (t.pop (.enqueue key debounce))
  | enqueueGoesOn (s t : TargetQueue) (key : TargetKey) (debounce : Int) (hcall : .enqueue key debounce ∈ s.calls)
      (h : s.enqueueRead key debounce = (none, t)) :
      QueueStep cfg s .internal ((t.pop (.enqueue key debounce)).push (.enqueueLocked key debounce))
  | enqueueLocked (s : TargetQueue) (key : TargetKey) (debounce now : Int)
      (hcall : .enqueueLocked key debounce ∈ s.calls) (hnow : s.now ≤ now) :
      QueueStep cfg s (answered key false (s.enqueueLocked key debounce now).1)
        (((s.enqueueLocked key debounce now).2.pop (.enqueueLocked key debounce)).atTime now)
  | periodicRead (s : TargetQueue) (key : TargetKey) (hcall : .periodic key ∈ s.calls) :
      QueueStep cfg s .internal
        (if s.deleted key then s.pop (.periodic key) else (s.pop (.periodic key)).push (.periodicLocked key))
  | periodicLocked (s : TargetQueue) (key : TargetKey) (hcall : .periodicLocked key ∈ s.calls) :
      QueueStep cfg s (answered key true (s.enqueuePeriodicLocked key).1)
        ((s.enqueuePeriodicLocked key).2.pop (.periodicLocked key))
  | activate (s : TargetQueue) (key : TargetKey) : QueueStep cfg s .internal (s.activateTarget key)
  | forget (s : TargetQueue) (key : TargetKey) :
      QueueStep cfg s (.forgotten key) ((s.forgetLocked key).push (.forget key))
  | forgetFailures (s : TargetQueue) (key : TargetKey) (hcall : .forget key ∈ s.calls) :
      QueueStep cfg s .internal ((s.resetFailures key).pop (.forget key))
  | get (s : TargetQueue) (key : TargetKey) (queue : WorkQueue TargetKey) (h : s.queue.get = some (key, queue)) :
      QueueStep cfg s .internal ({ s with queue := queue }.push (.got key))
  | getLocked (s : TargetQueue) (key : TargetKey) (now later : Int) (hcall : .got key ∈ s.calls)
      (hnow : s.now ≤ now)
      (hlater : now ≤ later) :
      QueueStep cfg s (if (s.getLocked key now later).1 then .delivered key now else .internal)
        (((s.getLocked key now later).2.pop (.got key)).atTime later)
  | complete (s : TargetQueue) (key : TargetKey) (failed : Bool) (now later : Int) (hnow : s.now ≤ now)
      (hlater : now ≤ later) :
      QueueStep cfg s (s.completedLabel cfg key failed now later)
        ((s.complete cfg key failed now later).2.atTime later)
  | expire (s : TargetQueue) (waiter : Waiter) (hwaiter : waiter ∈ s.waiters) (hdue : waiter.deadline ≤ s.now) :
      QueueStep cfg s .internal
        { s.expire waiter.key waiter.kind waiter.generation with waiters := s.waiters.erase waiter }
  | leave (s : TargetQueue) (waiter : Waiter) (hwaiter : waiter ∈ s.waiters)
      (h : waiter.generation ∈ s.closed ∨ s.stopped = true) :
      QueueStep cfg s .internal { s with waiters := s.waiters.erase waiter }
  | shutDown (s : TargetQueue) : QueueStep cfg s .internal s.shutDownLocked
  | shutDownQueue (s : TargetQueue) (h : s.stopped = true) :
      QueueStep cfg s .internal { s with queue := s.queue.shutDown }

/-- The runs of a queue that starts at some time. -/
def QueueRun (cfg : QueueConfig) (labels : List QueueLabel) (s : TargetQueue) : Prop :=
  ∃ start, Path (QueueStep cfg) (.new start) labels s

end FortigateDns
