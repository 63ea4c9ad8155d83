import FortigateDns.Proof.QueueTimers

/-!
# Wake-ups of the target queue

A step as one key sees it, and what it does to the wake-ups of the key.

* `KeyStep`, `keyStep`: a step leaves the key alone or is one of nine sections on it.
* `Wake`, `Due`: the key is in the queue or has a timer; or a `Get` has just taken it out.
* `accepted_due`, `failed_due`: what makes a key due.
* `due_step`: **only a delivery or a tombstone ends it.**
-/

namespace FortigateDns

open Go Conc Option

variable {now time : Int} {holds marks : Prop}

namespace TargetQueue

variable {cfg : QueueConfig} {s t u : TargetQueue} {key other : TargetKey} {kind kind' : TimerKind}

/-- The key is left alone: a call that has taken it out of the queue is still under way. -/
structure Elsewhere (key : TargetKey) (s t : TargetQueue) : Prop where
  timers : ∀ kind, t.timers kind key = s.timers kind key
  dirty : t.queue.dirty key = s.queue.dirty key
  held : t.held key = s.held key
  periodic : t.periodic key = s.periodic key
  deleted : s.deleted key = false → t.deleted key = false
  got : .got key ∈ s.calls → .got key ∈ t.calls
  now : s.now ≤ t.now

theorem Elsewhere.trans (h : Elsewhere key s t) (h' : Elsewhere key t u) : Elsewhere key s u where
  timers kind := (h'.timers kind).trans (h.timers kind)
  dirty := h'.dirty.trans h.dirty
  held := h'.held.trans h.held
  periodic := h'.periodic.trans h.periodic
  deleted hs := h'.deleted (h.deleted hs)
  got hs := h'.got (h.got hs)
  now := h.now.trans h'.now

theorem Elsewhere.refl (key : TargetKey) (s : TargetQueue) : Elsewhere key s s where
  timers _ := rfl
  dirty := rfl
  held := rfl
  periodic := rfl
  deleted hs := hs
  got hs := hs
  now := le_rfl

theorem push_elsewhere (call : QueueCall) : Elsewhere key s (s.push call) :=
  { Elsewhere.refl key s with got := List.mem_cons_of_mem _ }

theorem pop_elsewhere {call : QueueCall} (hne : call ≠ .got key) : Elsewhere key s (s.pop call) :=
  { Elsewhere.refl key s with got := (List.mem_erase_of_ne hne.symm).2 }

theorem atTime_elsewhere (hnow : s.now ≤ now) : Elsewhere key s (s.atTime now) :=
  { Elsewhere.refl key s with now := hnow }

theorem OnlyKey.elsewhere (h : OnlyKey other s t) (hne : key ≠ other) : Elsewhere key s t where
  timers kind := h.timers kind key hne
  dirty := h.dirty key hne
  held := h.held key hne
  periodic := h.periodic key hne
  deleted := by rw [h.deleted]; exact id
  got := by rw [h.calls]; exact id
  now := by rw [h.now]

/-- The key that a step is seen for. -/
def seenKey : QueueLabel → Option TargetKey
  | .accepted key _ | .delivered key _ | .failed key _ _ _ | .completed key _ | .forgotten key => some key
  | .internal => none

theorem seenKey_answered {periodic answer : Bool} (hne : key ≠ other) :
    seenKey (answered other periodic answer) ≠ some key := by
  cases answer
  · nofun
  · exact fun heq => hne (some.inj heq).symm

/-- **A step, as one key sees it.** -/
inductive KeyStep (cfg : QueueConfig) (key : TargetKey) (s : TargetQueue) : QueueLabel → TargetQueue → Prop
  | elsewhere {label : QueueLabel} {t : TargetQueue} (hlabel : seenKey label ≠ some key) (h : Elsewhere key s t) :
      KeyStep cfg key s label t
  | enqueueRead {t : TargetQueue} (debounce : Int) (answer : Bool)
      (h : (s.enqueueRead key debounce).1 = some answer)
      (ht : Elsewhere key (s.enqueueRead key debounce).2 t) : KeyStep cfg key s (answered key false answer) t
  | enqueueLocked {t : TargetQueue} (debounce now : Int) (hnow : s.now ≤ now) (hlater : now ≤ t.now)
      (ht : Elsewhere key (s.enqueueLocked key debounce now).2 t) :
      KeyStep cfg key s (answered key false (s.enqueueLocked key debounce now).1) t
  | periodicLocked {t : TargetQueue} (ht : Elsewhere key (s.enqueuePeriodicLocked key).2 t) :
      KeyStep cfg key s (answered key true (s.enqueuePeriodicLocked key).1) t
  | forget : KeyStep cfg key s (.forgotten key) ((s.forgetLocked key).push (.forget key))
  | get (queue : WorkQueue TargetKey) : KeyStep cfg key s .internal ({ s with queue := queue }.push (.got key))
  | getLocked (now later : Int) (hnow : s.now ≤ now) (hlater : now ≤ later) :
      KeyStep cfg key s (if (s.getLocked key now later).1 then .delivered key now else .internal)
        (((s.getLocked key now later).2.pop (.got key)).atTime later)
  | complete (failed : Bool) (now later : Int) (hnow : s.now ≤ now) (hlater : now ≤ later) :
      KeyStep cfg key s (s.completedLabel cfg key failed now later)
        ((s.complete cfg key failed now later).2.atTime later)
  | expire (kind : TimerKind) (generation : Nat) (waiters : List Waiter) :
      KeyStep cfg key s .internal { s.expire key kind generation with waiters := waiters }
  | shutDown : KeyStep cfg key s .internal s.shutDownLocked

theorem forgetLocked_elsewhere (hne : key ≠ other) : Elsewhere key s (s.forgetLocked other) := by
  have hfields : Elsewhere key s { s with
      deleted := Function.update s.deleted other true
      held := Function.update s.held other none
      periodic := Function.update s.periodic other false } :=
    { Elsewhere.refl key s with
      held := Function.update_of_ne hne _ _
      periodic := Function.update_of_ne hne _ _
      deleted := by simp [hne] }
  have htouches : Touches ⟨0, 0, 0, fun _ _ => 0⟩ other False False _ (s.forgetLocked other) :=
    .head (.stop .debounce) (.single (.stop .retry))
  exact hfields.trans (htouches.only.elsewhere hne)

theorem activateTarget_elsewhere : Elsewhere key s (s.activateTarget other) := by
  refine { Elsewhere.refl key s with deleted := fun hs => ?_ }
  by_cases hkey : key = other
  · simp [activateTarget, hkey]
  · simp [activateTarget, hkey, hs]

theorem get_elsewhere {queue : WorkQueue TargetKey} (h : s.queue.get = some (other, queue)) (hne : key ≠ other) :
    Elsewhere key s { s with queue := queue } :=
  { Elsewhere.refl key s with dirty := WorkQueue.get_dirty_other h hne }

/-- A section on another key leaves the key alone, and so does the end of its call. -/
theorem section_elsewhere {call : QueueCall} (h : Touches cfg other holds marks s t) (hne : key ≠ other)
    (hcall : call ≠ .got key) (hnow : s.now ≤ now) : Elsewhere key s ((t.pop call).atTime now) := by
  have htime : (t.pop call).now ≤ now := by
    show t.now ≤ now
    rw [h.only.now]
    exact hnow
  exact ((h.only.elsewhere hne).trans (pop_elsewhere hcall)).trans (atTime_elsewhere htime)

theorem enqueueAnswered_keyStep {debounce : Int} {answer : Bool} (key : TargetKey)
    (hread : s.enqueueRead other debounce = (some answer, u)) :
    KeyStep cfg key s (answered other false answer) (u.pop (.enqueue other debounce)) := by
  have hpop : Elsewhere key (s.enqueueRead other debounce).2 (u.pop (.enqueue other debounce)) := by
    rw [hread]
    exact pop_elsewhere (by simp)
  by_cases hkey : key = other
  · subst hkey
    exact .enqueueRead debounce answer (by rw [hread]) hpop
  · exact .elsewhere (seenKey_answered hkey) (((enqueueRead_touches cfg debounce).only.elsewhere hkey).trans hpop)

/-- Without an answer the first section of `Enqueue` has done nothing. -/
theorem enqueueRead_goesOn {debounce : Int} (hread : s.enqueueRead key debounce = (none, u)) : s = u := by
  unfold enqueueRead at hread
  repeat' split at hread
  all_goals simp_all

theorem enqueueLocked_keyStep (key other : TargetKey) (debounce : Int) (hnow : s.now ≤ now) :
    KeyStep cfg key s (answered other false (s.enqueueLocked other debounce now).1)
      (((s.enqueueLocked other debounce now).2.pop (.enqueueLocked other debounce)).atTime now) := by
  by_cases hkey : key = other
  · subst hkey
    have htime : (s.enqueueLocked key debounce now).2.now ≤ now := by
      rw [(enqueueLocked_touches cfg debounce now).only.now]
      exact hnow
    exact .enqueueLocked debounce now hnow le_rfl ((pop_elsewhere (by simp)).trans (atTime_elsewhere htime))
  · exact .elsewhere (seenKey_answered hkey)
      (section_elsewhere (enqueueLocked_touches cfg debounce now) hkey (by simp) hnow)

theorem periodicLocked_keyStep (key other : TargetKey) :
    KeyStep cfg key s (answered other true (s.enqueuePeriodicLocked other).1)
      ((s.enqueuePeriodicLocked other).2.pop (.periodicLocked other)) := by
  by_cases hkey : key = other
  · subst hkey
    exact .periodicLocked (pop_elsewhere (by simp))
  · have hsection := (enqueuePeriodicLocked_touches cfg).only.elsewhere (s := s) hkey
    exact .elsewhere (seenKey_answered hkey) (hsection.trans (pop_elsewhere (by simp)))

theorem forget_keyStep (key other : TargetKey) :
    KeyStep cfg key s (.forgotten other) ((s.forgetLocked other).push (.forget other)) := by
  by_cases hkey : key = other
  · subst hkey
    exact .forget
  · exact .elsewhere (fun heq => hkey (some.inj heq).symm)
      ((forgetLocked_elsewhere hkey).trans (push_elsewhere _))

theorem get_keyStep {queue : WorkQueue TargetKey} (key : TargetKey) (hget : s.queue.get = some (other, queue)) :
    KeyStep cfg key s .internal ({ s with queue := queue }.push (.got other)) := by
  by_cases hkey : key = other
  · subst hkey
    exact .get queue
  · exact .elsewhere nofun ((get_elsewhere hget hkey).trans (push_elsewhere _))

theorem getLocked_keyStep {later : Int} (key other : TargetKey) (hnow : s.now ≤ now) (hlater : now ≤ later) :
    KeyStep cfg key s (if (s.getLocked other now later).1 then .delivered other now else .internal)
      (((s.getLocked other now later).2.pop (.got other)).atTime later) := by
  by_cases hkey : key = other
  · subst hkey
    exact .getLocked now later hnow hlater
  · have hcall : QueueCall.got other ≠ .got key := fun heq => hkey (QueueCall.got.inj heq).symm
    refine .elsewhere ?_ (section_elsewhere (getLocked_touches cfg now later) hkey hcall (hnow.trans hlater))
    split
    · exact fun heq => hkey (some.inj heq).symm
    · nofun

theorem complete_keyStep {later : Int} (key other : TargetKey) (failed : Bool) (hnow : s.now ≤ now)
    (hlater : now ≤ later) :
    KeyStep cfg key s (s.completedLabel cfg other failed now later)
      ((s.complete cfg other failed now later).2.atTime later) := by
  by_cases hkey : key = other
  · subst hkey
    exact .complete failed now later hnow hlater
  · have honly : OnlyKey other s (s.complete cfg other failed now later).2 :=
      (complete_touches failed now later).only
    have htime : (s.complete cfg other failed now later).2.now ≤ later := by
      rw [honly.now]
      exact hnow.trans hlater
    refine .elsewhere ?_ ((honly.elsewhere hkey).trans (atTime_elsewhere htime))
    unfold completedLabel
    split <;> exact fun heq => hkey (some.inj heq).symm

theorem expire_keyStep (key : TargetKey) (waiter : Waiter) (waiters : List Waiter) :
    KeyStep cfg key s .internal { s.expire waiter.key waiter.kind waiter.generation with
      waiters := waiters } := by
  by_cases hkey : key = waiter.key
  · subst hkey
    exact .expire waiter.kind waiter.generation _
  · have hsection := (expire_touches cfg waiter.kind waiter.generation).only.elsewhere (s := s) hkey
    exact .elsewhere nofun { hsection with }

/-- **Every step is one of these**, for every key. -/
theorem keyStep {label : QueueLabel} (hstep : QueueStep cfg s label t) (key : TargetKey) :
    KeyStep cfg key s label t := by
  cases hstep with
  | tick now hnow => exact .elsewhere nofun (atTime_elsewhere hnow)
  | callEnqueue k debounceFor _ _ => exact .elsewhere nofun (push_elsewhere _)
  | callPeriodic k _ _ => exact .elsewhere nofun (push_elsewhere _)
  | enqueueAnswered u k debounce answer _ hread => exact enqueueAnswered_keyStep key hread
  | enqueueGoesOn u k debounce _ hread =>
    obtain rfl := enqueueRead_goesOn hread
    exact .elsewhere nofun ((pop_elsewhere (by simp)).trans (push_elsewhere _))
  | enqueueLocked k debounce now _ hnow => exact enqueueLocked_keyStep key k debounce hnow
  | periodicRead k _ =>
    refine .elsewhere nofun ?_
    split
    · exact pop_elsewhere (by simp)
    · exact (pop_elsewhere (by simp)).trans (push_elsewhere _)
  | periodicLocked k _ => exact periodicLocked_keyStep key k
  | activate k => exact .elsewhere nofun activateTarget_elsewhere
  | forget k => exact forget_keyStep key k
  | forgetFailures k _ =>
    have hpop : Elsewhere key s (s.pop (.forget k)) := pop_elsewhere (by simp)
    exact .elsewhere nofun { hpop with }
  | get k queue hget => exact get_keyStep key hget
  | getLocked k now later _ hnow hlater => exact getLocked_keyStep key k hnow hlater
  | complete k failed now later hnow hlater => exact complete_keyStep key k failed hnow hlater
  | expire waiter _ _ => exact expire_keyStep key waiter _
  | leave waiter _ _ => exact .elsewhere nofun { Elsewhere.refl key s with }
  | shutDown => exact .shutDown
  | shutDownQueue _ => exact .elsewhere nofun { Elsewhere.refl key s with }

/-- The key is in the queue or has a timer. -/
def Wake (key : TargetKey) (s : TargetQueue) : Prop :=
  s.queue.dirty key = true ∨ ∃ kind timer, s.timers kind key = some timer

theorem Wake.elsewhere (h : Wake key s) (hst : Elsewhere key s t) : Wake key t := by
  unfold Wake
  rw [hst.dirty]
  simp only [hst.timers]
  exact h

theorem Wake.done (h : Wake key s) : Wake key (s.done key) := h

theorem Wake.resetFailures (h : Wake key s) : Wake key (s.resetFailures key) := h

@[simp] theorem stopTimer_queue : (s.stopTimer key kind).queue = s.queue := by
  unfold stopTimer
  split <;> rfl

@[simp] theorem stopRetryLocked_queue : (s.stopRetryLocked key).queue = s.queue := stopTimer_queue

theorem add_wake (hopen : s.queue.shuttingDown = false) : Wake key (s.add key) :=
  Or.inl (WorkQueue.add_dirty_self hopen)

theorem addAfter_wake (hopen : s.queue.shuttingDown = false) (delay now : Int) :
    Wake key (s.addAfter key kind delay now) := by
  unfold addAfter
  split
  · exact add_wake hopen
  · exact Or.inr ⟨kind, _, setTimer_self _⟩

/-- A retry is scheduled unless the target is forgotten or the queue shuts down. -/
theorem scheduleRetryLocked_wake (hlive : s.deleted key = false) (hopen : s.queue.shuttingDown = false)
    (delay now : Int) :
    Wake key (s.scheduleRetryLocked key delay now).2 := by
  unfold scheduleRetryLocked
  rw [if_neg (by simp [hlive, hopen])]
  split
  · rename_i pending hpending
    split
    · exact Or.inr ⟨.debounce, pending, hpending⟩
    · exact addAfter_wake (by simp [hopen]) delay now
  · exact addAfter_wake (by simp [hopen]) delay now

theorem enqueueDelayed_wake (hopen : s.queue.shuttingDown = false) (debounce now : Int) :
    Wake key (s.enqueueDelayed key debounce now) := by
  refine addAfter_wake ?_ _ _
  unfold heldDelay
  repeat' split
  all_goals exact hopen

theorem enqueueRead_wake (hopen : s.queue.shuttingDown = false) {debounce : Int}
    (h : (s.enqueueRead key debounce).1 = some true) : Wake key (s.enqueueRead key debounce).2 := by
  unfold enqueueRead at h ⊢
  split at h
  · simp at h
  rename_i hlive
  rw [if_neg hlive]
  split at h
  · rename_i hpending
    rw [if_pos hpending]
    obtain ⟨timer, htimer⟩ := Option.isSome_iff_exists.1 hpending
    exact Or.inr ⟨.debounce, timer, htimer⟩
  rename_i hnone
  rw [if_neg hnone]
  split at h
  · rename_i hfree
    rw [if_pos hfree]
    exact add_wake hopen
  · simp at h

theorem enqueueLocked_wake (hlive : s.deleted key = false) (hopen : s.queue.shuttingDown = false)
    (debounce now : Int) : Wake key (s.enqueueLocked key debounce now).2 := by
  unfold enqueueLocked
  rw [if_neg (by simp [hlive])]
  split
  · rename_i hpending
    obtain ⟨timer, htimer⟩ := Option.isSome_iff_exists.1 hpending
    exact Or.inr ⟨.debounce, timer, htimer⟩
  split
  · rename_i retry hretry
    split
    · exact Or.inr ⟨.retry, retry, hretry⟩
    · exact enqueueDelayed_wake (by simp [hopen]) debounce now
  · exact enqueueDelayed_wake hopen debounce now

theorem enqueuePeriodicLocked_wake (hlive : s.deleted key = false) (hopen : s.queue.shuttingDown = false) :
    Wake key (s.enqueuePeriodicLocked key).2 := by
  unfold enqueuePeriodicLocked
  rw [if_neg (by simp [hlive])]
  exact add_wake (by simp [hopen])

/-- A key that `Get` puts back has a retry. -/
theorem getLocked_wake (hlive : s.deleted key = false) (hopen : s.queue.shuttingDown = false) {later : Int}
    (h : (s.getLocked key now later).1 = false) : Wake key (s.getLocked key now later).2 := by
  unfold getLocked at h ⊢
  rw [if_neg (by simp [hlive])] at h ⊢
  simp only at h ⊢
  have hstop : OnlyKey key s _ := (useMark_touches ⟨0, 0, 0, fun _ _ => 0⟩).only
  split at h
  · simp at h
  split at h
  · rename_i hheld
    rw [if_pos hheld]
    refine scheduleRetryLocked_wake ?_ ?_ _ _
    · rw [hstop.deleted]
      exact hlive
    · rw [hstop.shuttingDown]
      exact hopen
  · simp at h

/-- A failure that is to be retried has a retry, and no completion removes a wake-up. -/
theorem complete_wake (hlive : s.deleted key = false) (hopen : s.queue.shuttingDown = false) {failed : Bool}
    {later : Int} (h : Wake key s ∨ failed = true ∧ (s.complete cfg key failed now later).1 ≠ .exhausted) :
    Wake key (s.complete cfg key failed now later).2 := by
  unfold complete at h ⊢
  rw [if_neg (by simp [hlive])] at h ⊢
  split
  · rename_i hfailed
    rcases h with h | ⟨htrue, -⟩
    · exact h
    · rw [htrue] at hfailed
      simp at hfailed
  rename_i hfailed
  rw [if_neg hfailed] at h
  simp only at h ⊢
  split
  · rename_i hmax
    rw [if_pos hmax] at h
    have hwake : Wake key s := h.resolve_right fun hboth => hboth.2 rfl
    dsimp only
    split
    · exact Wake.done (scheduleRetryLocked_wake (by exact hlive) (by exact hopen) _ _)
    · exact hwake
  · split
    · exact Wake.done (scheduleRetryLocked_wake (by exact hlive) (by exact hopen) _ _)
    · exact Wake.done (Wake.resetFailures (scheduleRetryLocked_wake (by exact hlive) (by exact hopen) _ _))

theorem expire_wake (hlive : s.deleted key = false) (hopen : s.queue.shuttingDown = false) (generation : Nat)
    (h : Wake key s) : Wake key (s.expire key kind generation) := by
  unfold expire
  split
  · exact h
  split
  · exact h
  have hadd : ((s.setTimer key kind none).deleted key || (s.setTimer key kind none).queue.shuttingDown) =
    false := by
    show (s.deleted key || s.queue.shuttingDown) = false
    rw [hlive, hopen]
    rfl
  simp only [hadd]
  exact add_wake hopen

/-- **The key is going to be delivered**: it is not forgotten, and has a wake-up or has just been
taken out of the queue by a `Get` that is under way. -/
structure Due (key : TargetKey) (s : TargetQueue) : Prop where
  live : s.deleted key = false
  waits : Wake key s ∨ .got key ∈ s.calls

theorem Due.elsewhere (h : Due key s) (hst : Elsewhere key s t) : Due key t where
  live := hst.deleted h.live
  waits := h.waits.imp (fun hwake => hwake.elsewhere hst) hst.got

/-- A section on the key that leaves it with a wake-up. -/
theorem due_of_wake (h : Touches cfg key holds marks s t) (hlive : s.deleted key = false) (hwake : Wake key t) :
    Due key t where
  live := by rw [h.only.deleted]; exact hlive
  waits := Or.inl hwake

/-- A section on the key that keeps wake-ups. -/
theorem Due.only (h : Due key s) (hst : Touches cfg key holds marks s t) (hwake : Wake key s → Wake key t) :
    Due key t where
  live := by rw [hst.only.deleted]; exact h.live
  waits := by
    rcases h.waits with hs | hcall
    · exact Or.inl (hwake hs)
    · rw [hst.only.calls]
      exact Or.inr hcall

section

variable (cfg) (hlive : s.deleted key = false) (hopen : s.queue.shuttingDown = false)

include cfg hlive hopen

theorem enqueueRead_due {debounce : Int} (h : (s.enqueueRead key debounce).1 = some true)
    (ht : Elsewhere key (s.enqueueRead key debounce).2 t) : Due key t :=
  (due_of_wake (enqueueRead_touches cfg debounce) hlive (enqueueRead_wake hopen h)).elsewhere ht

theorem enqueueLocked_due {debounce : Int}
    (ht : Elsewhere key (s.enqueueLocked key debounce now).2 t) : Due key t :=
  (due_of_wake (enqueueLocked_touches cfg debounce now) hlive
    (enqueueLocked_wake hlive hopen debounce now)).elsewhere ht

theorem periodicLocked_due (ht : Elsewhere key (s.enqueuePeriodicLocked key).2 t) : Due key t :=
  (due_of_wake (enqueuePeriodicLocked_touches cfg) hlive (enqueuePeriodicLocked_wake hlive hopen)).elsewhere ht

end

/-- **Only a delivery or a tombstone ends it.** -/
theorem due_step {label : QueueLabel} (hopen : s.queue.shuttingDown = false) (hstep : QueueStep cfg s label t)
    (hforgotten : label ≠ .forgotten key) (hdelivered : ∀ time, label ≠ .delivered key time)
    (hrunning : t.stopped = false) (h : Due key s) : Due key t := by
  cases keyStep hstep key with
  | elsewhere _ hst => exact h.elsewhere hst
  | enqueueRead debounce answer hanswer ht =>
    have hanswer : answer = true := by
      unfold TargetQueue.enqueueRead at hanswer
      rw [if_neg (by simp [h.live])] at hanswer
      repeat' split at hanswer
      all_goals simp_all
    subst hanswer
    exact enqueueRead_due cfg h.live hopen ‹_› ht
  | enqueueLocked debounce now _ _ ht => exact enqueueLocked_due cfg h.live hopen ht
  | periodicLocked ht => exact periodicLocked_due cfg h.live hopen ht
  | forget => exact absurd rfl hforgotten
  | get queue => exact ⟨h.live, Or.inr List.mem_cons_self⟩
  | getLocked now later _ _ =>
    cases hresult : (s.getLocked key now later).1 with
    | true => exact absurd (by rw [hresult, if_pos rfl]) (hdelivered now)
    | false =>
      have hwake := getLocked_wake h.live hopen hresult
      have hdue := due_of_wake (getLocked_touches cfg now later) h.live hwake
      exact ⟨hdue.live, Or.inl hwake⟩
  | complete failed now later _ _ =>
    have hdue : Due key (s.complete cfg key failed now later).2 :=
      h.only (complete_touches failed now later) fun hwake => complete_wake h.live hopen (Or.inl hwake)
    exact ⟨hdue.live, hdue.waits⟩
  | expire kind generation waiters =>
    have hdue : Due key (s.expire key kind generation) :=
      h.only (expire_touches cfg kind generation) fun hwake => expire_wake h.live hopen generation hwake
    exact ⟨hdue.live, hdue.waits⟩
  | shutDown => cases hrunning

/-- What is accepted is going to be delivered. -/
theorem accepted_due {periodic : Bool} (hopen : s.queue.shuttingDown = false)
    (hstep : QueueStep cfg s (.accepted key periodic) t) : Due key t := by
  generalize hlabel : QueueLabel.accepted key periodic = label at hstep
  have hseen : seenKey label = some key := by rw [← hlabel]; rfl
  cases keyStep hstep key with
  | elsewhere hother _ => exact absurd hseen hother
  | enqueueRead debounce answer hanswer ht =>
    cases answer with
    | false => cases hseen
    | true =>
      have hlive : s.deleted key = false := by
        refine Bool.eq_false_iff.2 fun hdeleted => ?_
        simp [TargetQueue.enqueueRead, hdeleted] at hanswer
      exact enqueueRead_due cfg hlive hopen hanswer ht
  | enqueueLocked debounce now _ _ ht =>
    have hlive : s.deleted key = false := by
      refine Bool.eq_false_iff.2 fun hdeleted => ?_
      simp [TargetQueue.enqueueLocked, hdeleted, answered] at hlabel
    exact enqueueLocked_due cfg hlive hopen ht
  | periodicLocked ht =>
    have hlive : s.deleted key = false := by
      refine Bool.eq_false_iff.2 fun hdeleted => ?_
      simp [TargetQueue.enqueuePeriodicLocked, hdeleted, answered] at hlabel
    exact periodicLocked_due cfg hlive hopen ht
  | forget => cases hlabel
  | get queue => cases hlabel
  | getLocked now later _ _ => split at hlabel <;> cases hlabel
  | complete failed now later _ _ =>
    unfold completedLabel at hlabel
    split at hlabel <;> cases hlabel
  | expire kind generation waiters => cases hlabel
  | shutDown => cases hlabel

/-- `Complete` is what fails. -/
theorem failed_inv {result : Completion} {backoff : Int}
    (hstep : QueueStep cfg s (.failed key result time backoff) t) :
    s.deleted key = false ∧ backoff = s.backoff cfg key ∧ ∃ later,
      result = (s.complete cfg key true time later).1 ∧ t =
        (s.complete cfg key true time later).2.atTime later := by
  generalize hlabel : QueueLabel.failed key result time backoff = label at hstep
  have hseen : seenKey label = some key := by rw [← hlabel]; rfl
  cases keyStep hstep key with
  | elsewhere hother _ => exact absurd hseen hother
  | enqueueRead debounce answer _ _ => cases answer <;> cases hlabel
  | enqueueLocked debounce now _ _ _ =>
    unfold answered at hlabel
    split at hlabel <;> cases hlabel
  | periodicLocked _ =>
    unfold answered at hlabel
    split at hlabel <;> cases hlabel
  | forget => cases hlabel
  | get queue => cases hlabel
  | getLocked now later _ _ => split at hlabel <;> cases hlabel
  | complete failed now later _ _ =>
    unfold completedLabel at hlabel
    split at hlabel
    · rename_i hfailed
      simp only [Bool.and_eq_true, Bool.not_eq_true'] at hfailed
      obtain ⟨rfl, hlive⟩ := hfailed
      cases hlabel
      exact ⟨hlive, rfl, later, rfl, rfl⟩
    · cases hlabel
  | expire kind generation waiters => cases hlabel
  | shutDown => cases hlabel

/-- `Get` is what delivers. -/
theorem delivered_inv (hstep : QueueStep cfg s (.delivered key time) t) :
    s.now ≤ time ∧ ∃ later, (s.getLocked key time later).1 = true ∧
      t = ((s.getLocked key time later).2.pop (.got key)).atTime later := by
  generalize hlabel : QueueLabel.delivered key time = label at hstep
  have hseen : seenKey label = some key := by rw [← hlabel]; rfl
  cases keyStep hstep key with
  | elsewhere hother _ => exact absurd hseen hother
  | enqueueRead debounce answer _ _ => cases answer <;> cases hlabel
  | enqueueLocked debounce now _ _ _ =>
    unfold answered at hlabel
    split at hlabel <;> cases hlabel
  | periodicLocked _ =>
    unfold answered at hlabel
    split at hlabel <;> cases hlabel
  | forget => cases hlabel
  | get queue => cases hlabel
  | getLocked now later hnow _ =>
    split at hlabel
    · rename_i hdelivered
      cases hlabel
      exact ⟨hnow, later, hdelivered, rfl⟩
    · cases hlabel
  | complete failed now later _ _ =>
    unfold completedLabel at hlabel
    split at hlabel <;> cases hlabel
  | expire kind generation waiters => cases hlabel
  | shutDown => cases hlabel

/-- A failure that is not exhausted is going to be delivered again. -/
theorem failed_due {result : Completion} {backoff : Int} (hopen : s.queue.shuttingDown = false)
    (hstep : QueueStep cfg s (.failed key result time backoff) t) (hresult : result ≠ .exhausted) :
    Due key t := by
  obtain ⟨hlive, -, later, rfl, rfl⟩ := failed_inv hstep
  have hwake := complete_wake hlive hopen (Or.inr ⟨rfl, hresult⟩)
  have hdue := due_of_wake (complete_touches true time later) hlive hwake
  exact ⟨hdue.live, hdue.waits⟩

end TargetQueue

end FortigateDns
