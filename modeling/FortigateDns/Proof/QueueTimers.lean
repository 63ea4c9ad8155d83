import FortigateDns.Spec.TargetQueue
import Mathlib.Logic.Relation

/-!
# The sections and timers of the target queue

Every section of the queue is a sequence of a few kinds of changes to one key. What each of these
changes preserves is preserved by every section, and so by every step.

* `Touch`, `Touches`: one change to a key, and a sequence of them.
* `Counted`, `Orderly`: failures are counted up to the maximum, and the underlying queue is shut
  down last.
-/

namespace FortigateDns

open Go Conc List Relation

namespace TargetQueue

variable {cfg : QueueConfig} {s t u : TargetQueue} {key other : TargetKey} {kind kind' : TimerKind}
variable {holds marks : Prop} {timer : PendingTimer}

/-- One change to a key. `holds` and `marks` say whether the hold of a failure and the mark of a
periodic event may change. -/
inductive Touch (cfg : QueueConfig) (key : TargetKey) (holds marks : Prop) (s : TargetQueue) : TargetQueue → Prop
  | add : Touch cfg key holds marks s (s.add key)
  | done : Touch cfg key holds marks s (s.done key)
  | reset : Touch cfg key holds marks s (s.resetFailures key)
  | count (h : s.failures key < cfg.maxRetries) :
      Touch cfg key holds marks s { s with failures := Function.update s.failures key (s.failures key + 1) }
  | hold (h : holds) (limit : Option Int) :
      Touch cfg key holds marks s { s with held := Function.update s.held key limit }
  | mark (h : marks) (b : Bool) : Touch cfg key holds marks s
      { s with periodic := Function.update s.periodic key b }
  | stop (kind : TimerKind) : Touch cfg key holds marks s (s.stopTimer key kind)
  | remove (kind : TimerKind) : Touch cfg key holds marks s (s.setTimer key kind none)
  | start (kind : TimerKind) (hnone : ∀ kind', kind' ≠ kind → s.timers kind' key = none) (delay now : Int) :
      Touch cfg key holds marks s (s.startTimer key kind delay now)

/-- Steps that touch one key. -/
abbrev Touches (cfg : QueueConfig) (key : TargetKey) (holds marks : Prop) : TargetQueue → TargetQueue → Prop :=
  ReflTransGen (Touch cfg key holds marks)

@[simp] theorem setTimer_self (timer : Option PendingTimer) :
    (s.setTimer key kind timer).timers kind key = timer := by
  simp [setTimer]

theorem setTimer_other_key (timer : Option PendingTimer) (hne : other ≠ key) :
    (s.setTimer key kind timer).timers kind' other = s.timers kind' other := by
  unfold setTimer
  by_cases hkind : kind' = kind
  · subst hkind
    simp [hne]
  · simp [hkind]

theorem setTimer_other_kind (timer : Option PendingTimer) (hne : kind' ≠ kind) :
    (s.setTimer key kind timer).timers kind' other = s.timers kind' other := by
  simp [setTimer, hne]

/-- A timer that is set after another was removed was set before. -/
theorem setTimer_none_some (h : (s.setTimer key kind none).timers kind' other = some timer) :
    s.timers kind' other = some timer ∧ ¬ (kind' = kind ∧ other = key) := by
  by_cases hother : other = key
  · subst hother
    by_cases hkind : kind' = kind
    · subst hkind
      simp at h
    · rw [setTimer_other_kind none hkind] at h
      exact ⟨h, fun hboth => hkind hboth.1⟩
  · rw [setTimer_other_key none hother] at h
    exact ⟨h, fun hboth => hother hboth.2⟩

/-- Clearing a timer sets none. -/
theorem setTimer_none_of_none (h : s.timers kind' other = none) :
    (s.setTimer key kind none).timers kind' other = none := by
  by_contra hsome
  obtain ⟨timer, htimer⟩ := Option.ne_none_iff_exists'.1 hsome
  rw [(setTimer_none_some htimer).1] at h
  simp at h

theorem stopTimer_self : (s.stopTimer key kind).timers kind key = none := by
  unfold stopTimer
  split
  · assumption
  · simp

/-- Stopping a timer sets none. -/
theorem stopTimer_none (h : s.timers kind' other = none) : (s.stopTimer key kind).timers kind' other = none := by
  unfold stopTimer
  split
  · exact h
  · exact setTimer_none_of_none h

/-- What is added, now or later, has no timer of the other kind. -/
theorem addAfter_touches (hnone : ∀ kind', kind' ≠ kind → s.timers kind' key = none) (delay now : Int) :
    Touches cfg key holds marks s (s.addAfter key kind delay now) := by
  unfold addAfter
  split
  · exact .single .add
  · exact .single (.start kind hnone delay now)

/-- The old retry goes before the new one comes. -/
theorem addRetry_touches (hnone : s.timers .debounce key = none) (delay now : Int) :
    Touches cfg key holds marks s ((s.stopRetryLocked key).addAfter key .retry delay now) := by
  refine (ReflTransGen.single (.stop .retry)).trans (addAfter_touches (fun kind hkind => ?_) delay now)
  cases kind with
  | retry => exact absurd rfl hkind
  | debounce => exact stopTimer_none hnone

/-- The retry replaces an earlier debounce timer. -/
theorem scheduleRetryLocked_touches (delay now : Int) :
    Touches cfg key holds marks s (s.scheduleRetryLocked key delay now).2 := by
  unfold scheduleRetryLocked
  split
  · exact .refl
  split
  · split
    · exact .refl
    · exact .head (.stop .debounce) (addRetry_touches stopTimer_self delay now)
  · rename_i hnone
    exact addRetry_touches hnone delay now

/-- `Enqueue` first reads, and may add the key. -/
theorem enqueueRead_touches (cfg : QueueConfig) (debounce : Int) : Touches cfg key False False s
    (s.enqueueRead key debounce).2 := by
  unfold enqueueRead
  split
  · exact .refl
  split
  · exact .refl
  split
  · exact .single .add
  · exact .refl

/-- An event may end a hold. -/
theorem enqueueDelayed_touches (hnone : s.timers .retry key = none) (debounce now : Int) :
    Touches cfg key True False s (s.enqueueDelayed key debounce now) := by
  have hheld : Touches cfg key True False s (s.heldDelay key debounce now).2 ∧
      (s.heldDelay key debounce now).2.timers = s.timers := by
    unfold heldDelay
    split
    · exact ⟨.refl, rfl⟩
    split
    · exact ⟨.refl, rfl⟩
    split
    · exact ⟨.single (.hold trivial none), rfl⟩
    · exact ⟨.refl, rfl⟩
  refine hheld.1.trans (addAfter_touches (fun kind hkind => ?_) _ _)
  rw [hheld.2]
  cases kind with
  | retry => exact hnone
  | debounce => exact absurd rfl hkind

/-- Like every section, `enqueueLocked` is a sequence of changes to one key. -/
theorem enqueueLocked_touches (cfg : QueueConfig) (debounce now : Int) :
    Touches cfg key True False s (s.enqueueLocked key debounce now).2 := by
  unfold enqueueLocked
  split
  · exact .refl
  split
  · exact .refl
  split
  · split
    · exact .refl
    · exact .head (.stop .retry) (enqueueDelayed_touches stopTimer_self debounce now)
  · rename_i hnone
    exact enqueueDelayed_touches hnone debounce now

theorem enqueuePeriodicLocked_touches (cfg : QueueConfig) :
    Touches cfg key False True s (s.enqueuePeriodicLocked key).2 := by
  unfold enqueuePeriodicLocked
  split
  · exact .refl
  · exact .head (.stop .debounce) (.head (.stop .retry) (.head (.mark trivial true) (.single .add)))

/-- `Get` uses the mark of a periodic event up. -/
theorem useMark_touches (cfg : QueueConfig) : Touches cfg key False True s (if s.periodic key = true then
    { s with periodic := Function.update s.periodic key false }.stopRetryLocked key
    else { s with periodic := Function.update s.periodic key false }) := by
  split
  · exact .head (.mark trivial false) (.single (.stop .retry))
  · exact .single (.mark trivial false)

/-- A key that is held back is put into a retry timer. -/
theorem getLocked_touches (cfg : QueueConfig) (now later : Int) :
    Touches cfg key False True s (s.getLocked key now later).2 := by
  unfold getLocked
  split
  · exact .head .reset (.single .done)
  dsimp only
  split
  · exact useMark_touches cfg
  split
  · exact ((useMark_touches cfg).trans (scheduleRetryLocked_touches _ _)).tail .done
  · exact useMark_touches cfg

/-- A failure is counted only below the maximum. -/
theorem complete_touches (failed : Bool) (now later : Int) :
    Touches cfg key True False s (s.complete cfg key failed now later).2 := by
  unfold complete
  split
  · exact .head .reset (.single .done)
  split
  · exact .head (.hold trivial none) (.head .reset (.single .done))
  dsimp only
  split
  · refine .head (.hold trivial (some (now + s.backoff cfg key))) (.tail ?_ .done)
    split
    · exact scheduleRetryLocked_touches _ _
    · exact .refl
  · rename_i hmax
    refine .head (.hold trivial (some (now + s.backoff cfg key))) (.head (.count (not_le.1 hmax)) ?_)
    split
    · exact (scheduleRetryLocked_touches _ _).tail .done
    · exact ((scheduleRetryLocked_touches _ _).tail .reset).tail .done

/-- A timer that was replaced does nothing. -/
theorem expire_touches (cfg : QueueConfig) (kind : TimerKind) (generation : Nat) :
    Touches cfg key False False s (s.expire key kind generation) := by
  unfold expire
  split
  · exact .refl
  split
  · exact .refl
  dsimp only
  split
  · exact .single (.remove kind)
  · exact .head (.remove kind) (.single .add)

/-- Nothing has changed for keys other than `key`, and no call, no tombstone, nor the end of the queue. -/
structure OnlyKey (key : TargetKey) (s t : TargetQueue) : Prop where
  timers : ∀ kind other, other ≠ key → t.timers kind other = s.timers kind other
  dirty : ∀ other, other ≠ key → t.queue.dirty other = s.queue.dirty other
  held : ∀ other, other ≠ key → t.held other = s.held other
  periodic : ∀ other, other ≠ key → t.periodic other = s.periodic other
  deleted : t.deleted = s.deleted
  calls : t.calls = s.calls
  now : t.now = s.now
  stopped : t.stopped = s.stopped
  shuttingDown : t.queue.shuttingDown = s.queue.shuttingDown

theorem OnlyKey.refl (key : TargetKey) (s : TargetQueue) : OnlyKey key s s := by
  constructor <;> intros <;> rfl

theorem OnlyKey.trans (h : OnlyKey key s t) (h' : OnlyKey key t u) : OnlyKey key s u where
  timers kind other hne := (h'.timers kind other hne).trans (h.timers kind other hne)
  dirty other hne := (h'.dirty other hne).trans (h.dirty other hne)
  held other hne := (h'.held other hne).trans (h.held other hne)
  periodic other hne := (h'.periodic other hne).trans (h.periodic other hne)
  deleted := h'.deleted.trans h.deleted
  calls := h'.calls.trans h.calls
  now := h'.now.trans h.now
  stopped := h'.stopped.trans h.stopped
  shuttingDown := h'.shuttingDown.trans h.shuttingDown

theorem setTimer_only (timer : Option PendingTimer) : OnlyKey key s (s.setTimer key kind timer) :=
  { OnlyKey.refl key s with timers := fun _ _ hne => setTimer_other_key timer hne }

/-- Other keys are left alone. -/
theorem Touch.only (h : Touch cfg key holds marks s t) : OnlyKey key s t := by
  cases h with
  | add =>
    exact { OnlyKey.refl key s with
      dirty := fun _ hne => WorkQueue.add_dirty_other hne
      shuttingDown := WorkQueue.add_shuttingDown }
  | done => exact { OnlyKey.refl key s with }
  | reset => exact { OnlyKey.refl key s with }
  | count _ => exact { OnlyKey.refl key s with }
  | hold _ limit => exact { OnlyKey.refl key s with held := fun _ hne => Function.update_of_ne hne _ _ }
  | mark _ b => exact { OnlyKey.refl key s with periodic := fun _ hne => Function.update_of_ne hne _ _ }
  | stop kind =>
    unfold stopTimer
    split
    · exact .refl key s
    · exact { setTimer_only none with }
  | remove kind => exact setTimer_only none
  | start kind _ delay now => exact { setTimer_only (some ⟨s.nextTimer + 1, now + delay⟩) with }

/-- **A section on a key touches only this key.** -/
theorem Touches.only (h : Touches cfg key holds marks s t) : OnlyKey key s t := by
  induction h with
  | refl => exact .refl key s
  | tail _ hlast ih => exact ih.trans hlast.only

@[simp] theorem stopTimer_held : (s.stopTimer key kind).held = s.held := by
  unfold stopTimer
  split <;> rfl

@[simp] theorem stopTimer_periodic : (s.stopTimer key kind).periodic = s.periodic := by
  unfold stopTimer
  split <;> rfl

/-- Without `holds` no hold changes. -/
theorem Touches.held_eq (h : Touches cfg key False marks s t) : t.held = s.held := by
  induction h with
  | refl => rfl
  | tail _ hlast ih =>
    rw [← ih]
    cases hlast with
    | hold h _ => exact h.elim
    | stop kind => exact stopTimer_held
    | _ => rfl

/-- Without `marks` no mark changes. -/
theorem Touches.periodic_eq (h : Touches cfg key holds False s t) : t.periodic = s.periodic := by
  induction h with
  | refl => rfl
  | tail _ hlast ih =>
    rw [← ih]
    cases hlast with
    | mark h _ => exact h.elim
    | stop kind => exact stopTimer_periodic
    | _ => rfl

/-- **The timers are in order**: a key has at most one, generations tell timers apart, and unless
the queue is shut down every timer has a goroutine that waits for it and was not told to leave. -/
structure TimersOk (s : TargetQueue) : Prop where
  exclusive : ∀ key, s.timers .debounce key = none ∨ s.timers .retry key = none
  fresh : ∀ kind key timer, s.timers kind key = some timer → timer.generation ≤ s.nextTimer
  distinct : ∀ kind key timer kind' key' timer', s.timers kind key = some timer →
    s.timers kind' key' = some timer' → timer.generation = timer'.generation → kind = kind' ∧ key = key'
  closedFresh : ∀ generation ∈ s.closed, generation ≤ s.nextTimer
  waited : s.stopped = false → ∀ kind key timer, s.timers kind key = some timer →
    timer.generation ∉ s.closed ∧ ⟨kind, key, timer.generation, timer.deadline⟩ ∈ s.waiters

theorem TimersOk.setTimer_none (h : TimersOk s) : TimersOk (s.setTimer key kind none) where
  exclusive other := (h.exclusive other).imp setTimer_none_of_none setTimer_none_of_none
  fresh _ _ _ htimer := h.fresh _ _ _ (setTimer_none_some htimer).1
  distinct _ _ _ _ _ _ htimer htimer' :=
    h.distinct _ _ _ _ _ _ (setTimer_none_some htimer).1 (setTimer_none_some htimer').1
  closedFresh := h.closedFresh
  waited hopen _ _ _ htimer := h.waited hopen _ _ _ (setTimer_none_some htimer).1

/-- The goroutine of a stopped timer is told to leave. -/
theorem TimersOk.stopTimer (h : TimersOk s) : TimersOk (s.stopTimer key kind) := by
  unfold TargetQueue.stopTimer
  split
  · exact h
  rename_i timer htimer
  have hnone : TimersOk (s.setTimer key kind none) := h.setTimer_none
  refine { hnone with closedFresh := ?_, waited := ?_ }
  · intro generation hmem
    rcases mem_cons.1 hmem with rfl | hmem
    · exact h.fresh kind key timer htimer
    · exact h.closedFresh generation hmem
  · intro hopen kind' other timer' htimer'
    obtain ⟨hbefore, hnot⟩ := setTimer_none_some htimer'
    obtain ⟨hclosed, hwaiter⟩ := h.waited hopen kind' other timer' hbefore
    refine ⟨?_, hwaiter⟩
    -- the generation that is closed belongs to the timer that is stopped
    rw [mem_cons, not_or]
    exact ⟨fun heq => hnot (h.distinct kind' other timer' kind key timer hbefore htimer heq), hclosed⟩

/-- A timer that is set after another was started is this one, or was set before. -/
theorem startTimer_some {delay now : Int}
    (h : (s.startTimer key kind delay now).timers kind' other = some timer) :
    (kind' = kind ∧ other = key ∧ timer = ⟨s.nextTimer + 1, now + delay⟩) ∨
      s.timers kind' other = some timer := by
  have h : (s.setTimer key kind (some ⟨s.nextTimer + 1, now + delay⟩)).timers kind' other = some timer := h
  by_cases hother : other = key
  · subst hother
    by_cases hkind : kind' = kind
    · subst hkind
      rw [setTimer_self] at h
      exact Or.inl ⟨rfl, rfl, (Option.some.inj h).symm⟩
    · rw [setTimer_other_kind _ hkind] at h
      exact Or.inr h
  · rw [setTimer_other_key _ hother] at h
    exact Or.inr h

/-- A timer is started for a key that has none of the other kind. -/
theorem TimersOk.startTimer (h : TimersOk s) (hnone : ∀ kind', kind' ≠ kind → s.timers kind' key = none)
    (delay now : Int) : TimersOk (s.startTimer key kind delay now) where
  exclusive other := by
    by_contra hboth
    rw [not_or] at hboth
    obtain ⟨debounce, hdebounce⟩ := Option.ne_none_iff_exists'.1 hboth.1
    obtain ⟨retry, hretry⟩ := Option.ne_none_iff_exists'.1 hboth.2
    have hold := h.exclusive other
    rcases startTimer_some hdebounce with ⟨rfl, rfl, -⟩ | hdebounceOld
    · rcases startTimer_some hretry with ⟨heq, -⟩ | hretryOld
      · cases heq
      · simp [hnone .retry (by decide)] at hretryOld
    · rcases startTimer_some hretry with ⟨rfl, rfl, -⟩ | hretryOld
      · simp [hnone .debounce (by decide)] at hdebounceOld
      · simp [hdebounceOld, hretryOld] at hold
  fresh kind' other timer htimer := by
    show timer.generation ≤ s.nextTimer + 1
    rcases startTimer_some htimer with ⟨-, -, rfl⟩ | htimer
    · exact le_rfl
    · exact (h.fresh kind' other timer htimer).trans (Nat.le_succ _)
  distinct kind₁ key₁ timer₁ kind₂ key₂ timer₂ h₁ h₂ heq := by
    rcases startTimer_some h₁ with ⟨rfl, rfl, rfl⟩ | hold₁
    · rcases startTimer_some h₂ with ⟨rfl, rfl, -⟩ | hold₂
      · exact ⟨rfl, rfl⟩
      · have hle := h.fresh kind₂ key₂ timer₂ hold₂
        simp only at heq
        omega
    · rcases startTimer_some h₂ with ⟨rfl, rfl, rfl⟩ | hold₂
      · have hle := h.fresh kind₁ key₁ timer₁ hold₁
        simp only at heq
        omega
      · exact h.distinct kind₁ key₁ timer₁ kind₂ key₂ timer₂ hold₁ hold₂ heq
  closedFresh generation hmem := (h.closedFresh generation hmem).trans (Nat.le_succ _)
  waited hopen kind' other timer htimer := by
    rcases startTimer_some htimer with ⟨rfl, rfl, rfl⟩ | htimer
    · refine ⟨fun hmem => ?_, mem_cons_self⟩
      have hle : s.nextTimer + 1 ≤ s.nextTimer := h.closedFresh _ hmem
      omega
    · obtain ⟨hclosed, hwaiter⟩ := h.waited hopen kind' other timer htimer
      exact ⟨hclosed, mem_cons_of_mem _ hwaiter⟩

/-- The goroutine of a timer takes its section and ends. -/
theorem TimersOk.expire (h : TimersOk s) (waiter : Waiter) :
    TimersOk { s.expire waiter.key waiter.kind waiter.generation with waiters := s.waiters.erase waiter } := by
  -- a goroutine that is not the one that ends still waits
  have hstays : ∀ kind key timer, s.timers kind key = some timer → s.stopped = false →
      (⟨kind, key, timer.generation, timer.deadline⟩ : Waiter) ≠ waiter →
      timer.generation ∉ s.closed ∧ ⟨kind, key, timer.generation, timer.deadline⟩ ∈ s.waiters.erase waiter := by
    intro kind key timer htimer hopen hne
    obtain ⟨hclosed, hwaiter⟩ := h.waited hopen kind key timer htimer
    exact ⟨hclosed, (mem_erase_of_ne hne).2 hwaiter⟩
  unfold TargetQueue.expire
  split
  · rename_i hnone
    refine { h with waited := fun hopen kind key timer htimer => hstays kind key timer htimer hopen ?_ }
    rintro rfl
    rw [hnone] at htimer
    simp at htimer
  rename_i found hfound
  split
  · rename_i hgeneration
    refine { h with waited := fun hopen kind key timer htimer => hstays kind key timer htimer hopen ?_ }
    rintro rfl
    rw [hfound] at htimer
    exact hgeneration (congrArg PendingTimer.generation (Option.some.inj htimer))
  · have hremoved :
        TimersOk { s.setTimer waiter.key waiter.kind none with waiters := s.waiters.erase waiter } := by
      have hnone : TimersOk (s.setTimer waiter.key waiter.kind none) := h.setTimer_none
      refine { hnone with waited := ?_ }
      intro hopen kind key timer htimer
      obtain ⟨hbefore, hnot⟩ := setTimer_none_some htimer
      refine hstays kind key timer hbefore hopen ?_
      rintro rfl
      exact hnot ⟨rfl, rfl⟩
    dsimp only
    split
    · exact hremoved
    · exact { hremoved with }

/-- A goroutine that was told to leave does. -/
theorem TimersOk.leave (h : TimersOk s) {waiter : Waiter}
    (hleft : waiter.generation ∈ s.closed ∨ s.stopped = true) :
    TimersOk { s with waiters := s.waiters.erase waiter } := by
  refine { h with waited := fun hopen kind key timer htimer => ?_ }
  obtain ⟨hclosed, hwaiter⟩ := h.waited hopen kind key timer htimer
  refine ⟨hclosed, (mem_erase_of_ne ?_).2 hwaiter⟩
  rintro rfl
  rcases hleft with hleft | hleft
  · exact hclosed hleft
  · rw [hleft] at hopen
    simp at hopen

/-- The shutdown clears every timer. -/
theorem TimersOk.shutDownLocked (h : TimersOk s) : TimersOk s.shutDownLocked where
  exclusive _ := Or.inl rfl
  fresh _ _ _ htimer := by cases htimer
  distinct _ _ _ _ _ _ htimer := by cases htimer
  closedFresh := h.closedFresh
  waited hopen := by cases hopen

/-- No key has failed more often than it may. -/
def Counted (cfg : QueueConfig) (s : TargetQueue) : Prop := ∀ key, s.failures key ≤ cfg.maxRetries

/-- The underlying queue is shut down after `stopCh` is closed. -/
def Orderly (s : TargetQueue) : Prop := s.stopped = false → s.queue.shuttingDown = false

/-- **What holds at every point of a run.** -/
structure QueueOk (cfg : QueueConfig) (s : TargetQueue) : Prop where
  timers : TimersOk s
  counted : Counted cfg s
  orderly : Orderly s

theorem queueOk_new (start : Int) : QueueOk cfg (.new start) where
  timers :=
    { exclusive := fun _ => Or.inl rfl
      fresh := fun _ _ _ htimer => by cases htimer
      distinct := fun _ _ _ _ _ _ htimer => by cases htimer
      closedFresh := fun _ hmem => by cases hmem
      waited := fun _ _ _ _ htimer => by cases htimer }
  counted _ := Nat.zero_le _
  orderly _ := rfl

/-- A count within the bound. -/
theorem counted_update {n : Nat} (h : Counted cfg s) (hn : n ≤ cfg.maxRetries) :
    Counted cfg { s with failures := Function.update s.failures key n } := by
  intro other
  by_cases hkey : other = key
  · subst hkey
    simpa using hn
  · simpa [hkey] using h other

/-- One change keeps all of it. -/
theorem QueueOk.touch (h : QueueOk cfg s) (ht : Touch cfg key holds marks s t) : QueueOk cfg t := by
  have horderly : Orderly t := by
    unfold Orderly
    rw [ht.only.stopped, ht.only.shuttingDown]
    exact h.orderly
  cases ht with
  | add => exact ⟨{ h.timers with }, h.counted, horderly⟩
  | done => exact ⟨{ h.timers with }, h.counted, horderly⟩
  | reset => exact ⟨{ h.timers with }, counted_update h.counted (Nat.zero_le _), horderly⟩
  | count hless => exact ⟨{ h.timers with }, counted_update h.counted hless, horderly⟩
  | hold _ limit => exact ⟨{ h.timers with }, h.counted, horderly⟩
  | mark _ b => exact ⟨{ h.timers with }, h.counted, horderly⟩
  | stop kind =>
    refine ⟨h.timers.stopTimer, ?_, horderly⟩
    unfold stopTimer
    split <;> exact h.counted
  | remove kind => exact ⟨h.timers.setTimer_none, h.counted, horderly⟩
  | start kind hnone delay now => exact ⟨h.timers.startTimer hnone delay now, h.counted, horderly⟩

theorem QueueOk.touches (h : QueueOk cfg s) (ht : Touches cfg key holds marks s t) : QueueOk cfg t := by
  induction ht with
  | refl => exact h
  | tail _ hlast ih => exact ih.touch hlast

/-- What a step does besides its section: nothing that the invariant depends on. -/
structure Bookkeeping (s t : TargetQueue) : Prop where
  timers : t.timers = s.timers := by rfl
  nextTimer : t.nextTimer = s.nextTimer := by rfl
  closed : t.closed = s.closed := by rfl
  waiters : t.waiters = s.waiters := by rfl
  failures : t.failures = s.failures := by rfl
  stopped : t.stopped = s.stopped := by rfl
  shuttingDown : s.stopped = false → t.queue.shuttingDown = s.queue.shuttingDown := by exact fun _ => rfl

/-- Bookkeeping does not touch the timers. -/
theorem QueueOk.bookkeeping (h : QueueOk cfg s) (hst : Bookkeeping s t) : QueueOk cfg t where
  timers :=
    { exclusive := by rw [hst.timers]; exact h.timers.exclusive
      fresh := by rw [hst.timers, hst.nextTimer]; exact h.timers.fresh
      distinct := by rw [hst.timers]; exact h.timers.distinct
      closedFresh := by rw [hst.closed, hst.nextTimer]; exact h.timers.closedFresh
      waited := by rw [hst.stopped, hst.timers, hst.closed, hst.waiters]; exact h.timers.waited }
  counted key := hst.failures ▸ h.counted key
  orderly hopen := (hst.shuttingDown (hst.stopped ▸ hopen)).trans (h.orderly (hst.stopped ▸ hopen))

/-- **What a step comes to**: a section on one key with some bookkeeping, or the end of a goroutine or
of the queue. -/
inductive Effect (cfg : QueueConfig) (s : TargetQueue) : TargetQueue → Prop
  | idle {t : TargetQueue} (h : Bookkeeping s t) : Effect cfg s t
  | inside {t u v : TargetQueue} {key : TargetKey} {holds marks : Prop} (h : Touches cfg key holds marks u v)
      (hbefore : Bookkeeping s u) (hafter : Bookkeeping v t) : Effect cfg s t
  | expire (waiter : Waiter) :
      Effect cfg s { s.expire waiter.key waiter.kind waiter.generation with waiters := s.waiters.erase waiter }
  | leave (waiter : Waiter) (h : waiter.generation ∈ s.closed ∨ s.stopped = true) :
      Effect cfg s { s with waiters := s.waiters.erase waiter }
  | shutDown : Effect cfg s s.shutDownLocked

theorem effect_enqueueRead {debounce : Int} {answer : Option Bool}
    (hread : s.enqueueRead key debounce = (answer, u)) (hafter : Bookkeeping u t) : Effect cfg s t := by
  have htouches : Touches cfg key False False s (s.enqueueRead key debounce).2 := enqueueRead_touches cfg debounce
  rw [hread] at htouches
  exact .inside htouches {} hafter

/-- Every step is a section on one key, or ends a goroutine or the queue. -/
theorem step_effect {label : QueueLabel} (hstep : QueueStep cfg s label t) : Effect cfg s t := by
  cases hstep with
  | tick now _ => exact .idle {}
  | callEnqueue key debounceFor _ _ => exact .idle {}
  | callPeriodic key _ _ => exact .idle {}
  | enqueueAnswered u key debounce answer _ hread => exact effect_enqueueRead hread {}
  | enqueueGoesOn u key debounce _ hread => exact effect_enqueueRead hread {}
  | enqueueLocked key debounce now _ _ => exact .inside (enqueueLocked_touches cfg debounce now) {} {}
  | periodicRead key _ => split <;> exact .idle {}
  | periodicLocked key _ => exact .inside (enqueuePeriodicLocked_touches cfg) {} {}
  | activate key => exact .idle {}
  | forget key =>
    have htouches : Touches cfg key False False _ (s.forgetLocked key) :=
      .head (.stop .debounce) (.single (.stop .retry))
    exact .inside htouches {} {}
  | forgetFailures key _ =>
    have htouches : Touches cfg key False False s (s.resetFailures key) := .single .reset
    exact .inside htouches {} {}
  | get key queue hget => exact .idle { shuttingDown := fun _ => WorkQueue.get_shuttingDown hget }
  | getLocked key now later _ _ _ => exact .inside (getLocked_touches cfg now later) {} {}
  | complete key failed now later _ _ => exact .inside (complete_touches failed now later) {} {}
  | expire waiter _ _ => exact .expire waiter
  | leave waiter _ hleft => exact .leave waiter hleft
  | shutDown => exact .shutDown
  | shutDownQueue hstopped => exact .idle { shuttingDown := fun hopen => by rw [hstopped] at hopen; cases hopen }

/-- **Every step keeps the timers in order**, counts failures up to the maximum and shuts down in order. -/
theorem queueOk_step (s : TargetQueue) (label : QueueLabel) (t : TargetQueue) (h : QueueOk cfg s)
    (hstep : QueueStep cfg s label t) : QueueOk cfg t := by
  cases step_effect hstep with
  | idle hst => exact h.bookkeeping hst
  | inside htouches hbefore hafter => exact ((h.bookkeeping hbefore).touches htouches).bookkeeping hafter
  | expire waiter =>
    have htouches : Touches cfg waiter.key False False s _ := expire_touches cfg waiter.kind waiter.generation
    exact ⟨h.timers.expire waiter, (h.touches htouches).counted, (h.touches htouches).orderly⟩
  | leave waiter hleft => exact ⟨h.timers.leave hleft, h.counted, h.orderly⟩
  | shutDown => exact ⟨h.timers.shutDownLocked, h.counted, nofun⟩

/-- A queue that is shut down stays so. -/
theorem stopped_step {label : QueueLabel} (hstep : QueueStep cfg s label t) (hrunning : t.stopped = false) :
    s.stopped = false := by
  cases step_effect hstep with
  | idle hst => exact hst.stopped.symm.trans hrunning
  | inside htouches hbefore hafter =>
    exact (hbefore.stopped.symm.trans (htouches.only.stopped.symm.trans hafter.stopped.symm)).trans hrunning
  | expire waiter =>
    have htouches : Touches cfg waiter.key False False s _ := expire_touches cfg waiter.kind waiter.generation
    exact htouches.only.stopped.symm.trans hrunning
  | leave waiter _ => exact hrunning
  | shutDown => cases hrunning

end TargetQueue

end FortigateDns
