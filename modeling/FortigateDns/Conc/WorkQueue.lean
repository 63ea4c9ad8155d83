import Mathlib.Logic.Function.Basic

/-!
# A work queue with dirty and processing sets

The queue of a worker pool: a key that is added while it waits is not added twice, and a key that
is added while it is processed waits until that is done. `dirty` are the keys that have to be
processed, `processing` those that are, and `fifo` the dirty keys that are not being processed.
-/

namespace Conc

/-- The work queue of `client-go`. -/
structure WorkQueue (Key : Type) where
  fifo : List Key
  dirty : Key → Bool
  processing : Key → Bool
  shuttingDown : Bool

namespace WorkQueue

variable {Key : Type} [DecidableEq Key]

/-- Nothing queued. -/
def empty : WorkQueue Key := ⟨[], fun _ => false, fun _ => false, false⟩

/-- `Add`. -/
def add (q : WorkQueue Key) (key : Key) : WorkQueue Key :=
  if q.shuttingDown then q
  else if q.dirty key then q
  else
    { q with
      dirty := Function.update q.dirty key true
      fifo := if q.processing key then q.fifo else q.fifo ++ [key] }

/-- `Get`, which blocks as long as there is nothing to do. -/
def get (q : WorkQueue Key) : Option (Key × WorkQueue Key) :=
  match q.fifo with
  | [] => none
  | key :: rest =>
    some (key,
      { q with
        fifo := rest
        dirty := Function.update q.dirty key false
        processing := Function.update q.processing key true })

/-- `Done`. -/
def done (q : WorkQueue Key) (key : Key) : WorkQueue Key :=
  { q with
    processing := Function.update q.processing key false
    fifo := if q.dirty key then q.fifo ++ [key] else q.fifo }

/-- Nothing is accepted any more. -/
def shutDown (q : WorkQueue Key) : WorkQueue Key := { q with shuttingDown := true }

variable {q q' : WorkQueue Key} {key other : Key}

@[simp] theorem add_shuttingDown : (q.add key).shuttingDown = q.shuttingDown := by
  unfold add
  split
  · rfl
  · split <;> rfl

theorem add_dirty_self (h : q.shuttingDown = false) : (q.add key).dirty key = true := by
  unfold add
  rw [h, if_neg Bool.false_ne_true]
  split
  · assumption
  · simp

theorem add_dirty_other (h : other ≠ key) : (q.add key).dirty other = q.dirty other := by
  unfold add
  split
  · rfl
  · split
    · rfl
    · exact Function.update_of_ne h _ _

theorem get_dirty_other (h : q.get = some (key, q')) (hne : other ≠ key) : q'.dirty other = q.dirty other := by
  unfold get at h
  split at h
  · simp at h
  · obtain ⟨rfl, rfl⟩ := Prod.mk.inj (Option.some.inj h)
    exact Function.update_of_ne hne _ _

theorem get_shuttingDown (h : q.get = some (key, q')) : q'.shuttingDown = q.shuttingDown := by
  unfold get at h
  split at h
  · simp at h
  · obtain ⟨-, rfl⟩ := Prod.mk.inj (Option.some.inj h)
    rfl

end WorkQueue

end Conc
