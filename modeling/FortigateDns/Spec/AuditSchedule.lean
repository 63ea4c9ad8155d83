import FortigateDns.Spec.TargetQueue
import Mathlib.Algebra.Group.Int.Defs
import Mathlib.Data.List.AList
import Mathlib.Data.List.Sort

/-!
# The audit schedule

`AuditSchedule` with `Due` and `Delay`. Times and durations are nanoseconds; a difference of times
saturates at the bounds of an `int64`, as `Time.Sub` does.
-/

namespace FortigateDns

open Go

/-- As the queue logs it. -/
def TargetKey.string (key : TargetKey) : String := key.targetNamespace ++ "/" ++ key.name

/-- How often a target is audited. -/
structure TargetSchedule where
  key : TargetKey
  revision : String
  interval : Int
  deriving DecidableEq, Repr

/-- When a target is audited next. -/
structure AuditDeadline where
  revision : String
  interval : Int
  next : Int
  deriving DecidableEq, Repr

/-- The deadlines of all targets. -/
structure AuditSchedule where
  deadlines : AList fun _ : TargetKey => AuditDeadline

/-- What `Due` returns. -/
inductive ScheduleError
  /-- "audit fallback interval must be positive" -/
  | fallbackNotPositive
  /-- "invalid target audit schedule" -/
  | invalidTarget
  deriving DecidableEq, Repr

/-- The arguments of one call of `Due`. -/
structure DueCall where
  now : Int
  targets : List TargetSchedule
  fallback : Int
  immediateNew : Bool

/-- The interval of a target, or the fallback. -/
def TargetSchedule.effective (t : TargetSchedule) (fallback : Int) : Int :=
    if t.interval = 0 then fallback else t.interval

section Due

variable (s : AuditSchedule) (c : DueCall)

/-- The deadline of a target that is new, or whose revision or interval changed. -/
def DueCall.fresh (t : TargetSchedule) : AuditDeadline where
  revision := t.revision
  interval := t.effective c.fallback
  next := if c.immediateNew then c.now else c.now + t.effective c.fallback

/-- The deadline of a target before it is compared with the time. -/
def DueCall.entry (t : TargetSchedule) : AuditDeadline :=
  match s.deadlines.lookup t.key with
  | none => c.fresh t
  | some entry =>
    if entry.revision ≠ t.revision ∨ entry.interval ≠ t.effective c.fallback then c.fresh t else entry

/-- The maps and slices `Due` builds. -/
structure DueState where
  next : AList fun _ : TargetKey => AuditDeadline
  due : List TargetKey

/-- The body of the loop over the targets. -/
def DueCall.target (state : DueState) (t : TargetSchedule) : Except ScheduleError DueState :=
  if !t.key.valid ∨ t.interval < 0 then .error .invalidTarget
  else if (state.next.lookup t.key).isSome then .ok state
  else
    let entry := c.entry s t
    if entry.next ≤ c.now then
      .ok ⟨state.next.insert t.key { entry with next := c.now + t.effective c.fallback }, state.due ++ [t.key]⟩
    else .ok ⟨state.next.insert t.key entry, state.due⟩

/-- `Due`: what it returns, and the schedule it leaves. -/
def AuditSchedule.due : Except ScheduleError (List TargetKey) × AuditSchedule :=
  if c.fallback ≤ 0 then (.error .fallbackNotPositive, s)
  else
    match c.targets.foldlM (c.target s) ⟨∅, []⟩ with
    | .error e => (.error e, s)
    | .ok state => (.ok (state.due.insertionSort fun a b => a.string ≤ b.string), ⟨state.next⟩)

end Due

/-- `Time.Sub`. -/
def timeSub (t u : Int) : Int := max (-2 ^ 63) (min (2 ^ 63 - 1) (t - u))

/-- The time to the next deadline, at most the fallback. -/
def AuditSchedule.delay (s : AuditSchedule) (now fallback : Int) : Int :=
  let delay := s.deadlines.entries.foldl
    (fun delay entry => if timeSub entry.2.next now < delay then timeSub entry.2.next now else delay) fallback
  if delay < 0 then 0 else delay

end FortigateDns
