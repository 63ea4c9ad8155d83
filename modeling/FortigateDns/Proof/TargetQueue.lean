import FortigateDns.Proof.QueueWake

/-!
# No wake-up is lost, and no backoff is bypassed

* `Holds`, `holds_step`: events do not lift the hold of a failure before it is over.
* `no_lost_wakeup`: **a key that was accepted is covered until it is delivered or forgotten.**
* `backoff_respected`: **a key that has failed is not delivered before its backoff is over, and the
  retry is not dropped.**
-/

namespace FortigateDns

open Go Conc List

variable {label : QueueLabel} {limit time : Int} {labels : List QueueLabel}

namespace TargetQueue

variable {cfg : QueueConfig} {s t u : TargetQueue} {key other : TargetKey} {kind kind' : TimerKind}

@[simp] theorem scheduleRetryLocked_held (delay now : Int) :
    (s.scheduleRetryLocked key delay now).2.held = s.held := by
  have h : Touches ⟨0, 0, 0, fun _ _ => 0⟩ key False False s _ := scheduleRetryLocked_touches delay now
  exact h.held_eq

@[simp] theorem scheduleRetryLocked_periodic (delay now : Int) :
    (s.scheduleRetryLocked key delay now).2.periodic = s.periodic := by
  have h : Touches ⟨0, 0, 0, fun _ _ => 0⟩ key False False s _ := scheduleRetryLocked_touches delay now
  exact h.periodic_eq

/-- An event lifts the hold of its key only when it is over. -/
theorem enqueueDelayed_held (h : s.held key = some limit) (debounce now : Int) :
    (s.enqueueDelayed key debounce now).held key = some limit ∨ limit ≤ now := by
  have hadd : ∀ (t : TargetQueue) (delay : Int), (t.addAfter key .debounce delay now).held = t.held := by
    intro t delay
    unfold addAfter
    split <;> rfl
  unfold enqueueDelayed
  rw [hadd]
  unfold heldDelay
  rw [h]
  dsimp only
  split
  · exact Or.inl h
  split
  · exact Or.inr (by omega)
  · exact Or.inl h

theorem enqueueLocked_held (h : s.held key = some limit) (debounce now : Int) :
    (s.enqueueLocked key debounce now).2.held key = some limit ∨ limit ≤ now := by
  unfold enqueueLocked
  split
  · exact Or.inl h
  split
  · exact Or.inl h
  split
  · split
    · exact Or.inl h
    · exact enqueueDelayed_held (by simp [stopRetryLocked, h]) debounce now
  · exact enqueueDelayed_held h debounce now

/-- `Get` drops a key that is forgotten. -/
theorem getLocked_deleted (hdeleted : s.deleted key = true) (now later : Int) :
    s.getLocked key now later = (false, (s.resetFailures key).done key) := if_pos hdeleted

/-- `Get` uses the mark of a periodic event up. -/
theorem getLocked_periodic (hlive : s.deleted key = false) (now later : Int) :
    (s.getLocked key now later).2.periodic key = false := by
  unfold getLocked stopRetryLocked done
  rw [if_neg (by simp [hlive])]
  simp only
  repeat' split
  all_goals simp

/-- A failure holds its key until the backoff is over. -/
theorem complete_held (hlive : s.deleted key = false) (now later : Int) :
    (s.complete cfg key true now later).2.held key = some (now + s.backoff cfg key) := by
  unfold complete done resetFailures
  rw [if_neg (by simp [hlive]), if_neg (by simp)]
  simp only
  repeat' split
  all_goals simp

/-- Without a periodic event, `Get` delivers no key that is held. -/
theorem getLocked_delivers {now later : Int} (hperiodic : s.periodic key = false)
    (hheld : s.held key = some limit) (h : (s.getLocked key now later).1 = true) : limit ≤ now := by
  unfold getLocked at h
  split at h
  · cases h
  simp only [hperiodic, Bool.false_eq_true, if_false] at h
  rw [hheld] at h
  by_contra hlate
  have hremaining : 0 < limit - now := by omega
  dsimp only at h
  rw [if_pos ⟨trivial, hremaining⟩] at h
  cases h

theorem periodic_step (hstep : QueueStep cfg s label t) (hlabel : label ≠ .accepted key true)
    (h : s.periodic key = false) : t.periodic key = false := by
  cases keyStep hstep key with
  | elsewhere _ hst => rw [hst.periodic]; exact h
  | enqueueRead debounce answer _ ht =>
    rw [ht.periodic, (enqueueRead_touches cfg debounce).periodic_eq]
    exact h
  | enqueueLocked debounce now _ _ ht =>
    rw [ht.periodic, (enqueueLocked_touches cfg debounce now).periodic_eq]
    exact h
  | periodicLocked ht =>
    rw [ht.periodic]
    unfold TargetQueue.enqueuePeriodicLocked at hlabel ⊢
    split
    · exact h
    · rename_i hlive
      rw [if_neg hlive] at hlabel
      exact absurd rfl hlabel
  | forget =>
    show (s.forgetLocked key).periodic key = false
    simp [forgetLocked, stopRetryLocked]
  | get queue => exact h
  | getLocked now later _ _ =>
    show (s.getLocked key now later).2.periodic key = false
    cases hdeleted : s.deleted key with
    | true =>
      rw [getLocked_deleted hdeleted]
      exact h
    | false => exact getLocked_periodic hdeleted now later
  | complete failed now later _ _ =>
    show (s.complete cfg key failed now later).2.periodic key = false
    rw [(complete_touches failed now later).periodic_eq]
    exact h
  | expire kind generation waiters =>
    show (s.expire key kind generation).periodic key = false
    rw [(expire_touches cfg kind generation).periodic_eq]
    exact h
  | shutDown => exact h

/-- The hold of a failure, or the time at which it is over. -/
def Holds (key : TargetKey) (limit : Int) (s : TargetQueue) : Prop := s.held key = some limit ∨ limit ≤ s.now

theorem Holds.elsewhere (h : Holds key limit s) (hst : Elsewhere key s t) : Holds key limit t := by
  rcases h with hheld | hover
  · exact Or.inl (hst.held.trans hheld)
  · exact Or.inr (hover.trans hst.now)

/-- **Events do not lift a hold.** -/
theorem holds_step (hstep : QueueStep cfg s label t) (hforgotten : label ≠ .forgotten key)
    (hfailed : ∀ result time backoff, label ≠ .failed key result time backoff)
    (hcompleted : ∀ result, label ≠ .completed key result) (h : Holds key limit s) : Holds key limit t := by
  cases keyStep hstep key with
  | elsewhere _ hst => exact h.elsewhere hst
  | enqueueRead debounce answer _ ht =>
    refine Holds.elsewhere ?_ ht
    unfold Holds
    rw [(enqueueRead_touches cfg debounce).held_eq, (enqueueRead_touches cfg debounce).only.now]
    exact h
  | enqueueLocked debounce now hnow hlater ht =>
    rcases h with hheld | hover
    · rcases enqueueLocked_held hheld debounce now with hheld | hover
      · exact Or.inl (ht.held.trans hheld)
      · exact Or.inr (hover.trans hlater)
    · exact Or.inr (hover.trans (hnow.trans hlater))
  | periodicLocked ht =>
    refine Holds.elsewhere ?_ ht
    unfold Holds
    rw [(enqueuePeriodicLocked_touches cfg).only.now, (enqueuePeriodicLocked_touches cfg).held_eq]
    exact h
  | forget => exact absurd rfl hforgotten
  | get queue => exact h
  | getLocked now later hnow hlater =>
    rcases h with hheld | hover
    · refine Or.inl ?_
      show (s.getLocked key now later).2.held key = some limit
      rw [(getLocked_touches cfg now later).held_eq]
      exact hheld
    · exact Or.inr (hover.trans (hnow.trans hlater))
  | complete failed now later _ _ =>
    unfold completedLabel at hfailed hcompleted
    split at hfailed
    · exact absurd rfl (hfailed _ _ _)
    · rename_i hsuccess
      rw [if_neg hsuccess] at hcompleted
      exact absurd rfl (hcompleted _)
  | expire kind generation waiters =>
    show (s.expire key kind generation).held key = some limit ∨ limit ≤ (s.expire key kind generation).now
    rw [(expire_touches cfg kind generation).held_eq, (expire_touches cfg kind generation).only.now]
    exact h
  | shutDown => exact h

/-- A failure holds its key. -/
theorem failed_holds {result : Completion} {backoff : Int}
    (hstep : QueueStep cfg s (.failed key result time backoff) t) : Holds key (time + backoff) t := by
  obtain ⟨hlive, rfl, later, -, rfl⟩ := failed_inv hstep
  exact Or.inl (complete_held hlive time later)

/-- After a delivery there is no periodic event left. -/
theorem delivered_periodic (hstep : QueueStep cfg s (.delivered key time) t) : t.periodic key = false := by
  obtain ⟨-, later, hdelivered, rfl⟩ := delivered_inv hstep
  have hlive : s.deleted key = false := by
    refine Bool.eq_false_iff.2 fun hdeleted => ?_
    rw [getLocked_deleted hdeleted] at hdelivered
    cases hdelivered
  exact getLocked_periodic hlive time later

/-- Without a periodic event, a key is not delivered before the end of its hold. -/
theorem delivered_late (hstep : QueueStep cfg s (.delivered key time) t) (hquiet : s.periodic key = false)
    (h : Holds key limit s) : limit ≤ time := by
  obtain ⟨hnow, later, hdelivered, -⟩ := delivered_inv hstep
  rcases h with hheld | hover
  · exact getLocked_delivers hquiet hheld hdelivered
  · exact hover.trans hnow

theorem queueRun_ok (hrun : QueueRun cfg labels s) : QueueOk cfg s := by
  obtain ⟨start, hpath⟩ := hrun
  exact hpath.invariant queueOk_step (queueOk_new start)

/-- A run up to one of its labels, and the rest. -/
theorem queueRun_split {pre post : List QueueLabel} (hrun : QueueRun cfg (pre ++ label :: post) u) :
    ∃ s t, QueueRun cfg pre s ∧ QueueStep cfg s label t ∧ QueueOk cfg t ∧ Path (QueueStep cfg) t post u := by
  obtain ⟨start, hpath⟩ := hrun
  obtain ⟨s, hpre, hrest⟩ := hpath.split
  cases hrest with
  | cons hstep hpost =>
    have hs : QueueOk cfg s := queueRun_ok ⟨start, hpre⟩
    exact ⟨s, _, ⟨start, hpre⟩, hstep, queueOk_step s label _ hs hstep, hpost⟩

/-- A timer of the key, with the goroutine that waits for it. -/
def LiveTimer (kind : TimerKind) (key : TargetKey) (s : TargetQueue) : Prop :=
  ∃ timer, s.timers kind key = some timer ∧ timer.generation ∉ s.closed ∧
    ⟨kind, key, timer.generation, timer.deadline⟩ ∈ s.waiters

/-- The key is in the dirty set, has a timer, or has been taken out by a `Get` that is under way. -/
def Covered (key : TargetKey) (s : TargetQueue) : Prop :=
  s.queue.dirty key = true ∨ LiveTimer .debounce key s ∨ LiveTimer .retry key s ∨ .got key ∈ s.calls

theorem Due.covered (h : Due key s) (htimers : TimersOk s) (hrunning : s.stopped = false) : Covered key s := by
  rcases h.waits with (hdirty | ⟨kind, timer, htimer⟩) | hcall
  · exact Or.inl hdirty
  · have hlive : LiveTimer kind key s := ⟨timer, htimer, htimers.waited hrunning kind key timer htimer⟩
    cases kind with
    | debounce => exact Or.inr (Or.inl hlive)
    | retry => exact Or.inr (Or.inr (Or.inl hlive))
  · exact Or.inr (Or.inr (Or.inr hcall))

/-- **A key that is due stays covered** until it is delivered or forgotten. -/
theorem due_run (hpath : Path (QueueStep cfg) s labels t) (hok : QueueOk cfg s)
    (hdue : s.stopped = false → Due key s) (hforgotten : .forgotten key ∉ labels)
    (hdelivered : ∀ time, .delivered key time ∉ labels) (hrunning : t.stopped = false) : Covered key t := by
  have hkeeps : t.stopped = false → Due key t := by
    refine hpath.keeps (P := fun s => s.stopped = false → Due key s) queueOk_step ?_ hok hdue
    intro s label t hmem hok hdue hstep hrunning
    have hbefore := stopped_step hstep hrunning
    refine due_step (hok.orderly hbefore) hstep ?_ ?_ hrunning (hdue hbefore)
    · rintro rfl
      exact hforgotten hmem
    · rintro time rfl
      exact hdelivered time hmem
  have hend : QueueOk cfg t := hpath.invariant queueOk_step hok
  exact (hkeeps hrunning).covered hend.timers hrunning

theorem periodic_run (hpath : Path (QueueStep cfg) s labels t) (hquiet : .accepted key true ∉ labels)
    (h : s.periodic key = false) : t.periodic key = false := by
  induction hpath with
  | nil s => exact h
  | cons hstep _ ih =>
    rw [mem_cons, not_or] at hquiet
    exact ih hquiet.2 (periodic_step hstep (Ne.symm hquiet.1) h)

theorem holds_run (hpath : Path (QueueStep cfg) s labels t) (hforgotten : .forgotten key ∉ labels)
    (hfailed : ∀ result time backoff, .failed key result time backoff ∉ labels)
    (hcompleted : ∀ result, .completed key result ∉ labels) (h : Holds key limit s) : Holds key limit t := by
  induction hpath with
  | nil s => exact h
  | cons hstep _ ih =>
    simp only [mem_cons, not_or] at hforgotten hfailed hcompleted
    have ht := holds_step hstep (Ne.symm hforgotten.1)
      (fun result time backoff => Ne.symm (hfailed result time backoff).1)
      (fun result => Ne.symm (hcompleted result).1) h
    exact ih hforgotten.2 (fun result time backoff => (hfailed result time backoff).2)
      (fun result => (hcompleted result).2) ht

/-- At the start and after a delivery there is no periodic event. -/
theorem delivered_run (hrun : QueueRun cfg labels s)
    (hlast : labels = [] ∨ ∃ before time, labels = before ++ [.delivered key time]) : s.periodic key = false := by
  rcases hlast with rfl | ⟨before, time, rfl⟩
  · obtain ⟨start, hpath⟩ := hrun
    cases hpath
    rfl
  · obtain ⟨_, t, _, hstep, _, hnil⟩ := queueRun_split hrun
    cases hnil
    exact delivered_periodic hstep

end TargetQueue

open TargetQueue

/-- **No wake-up is lost, and no key has two timers.** -/
theorem no_lost_wakeup (cfg : QueueConfig) :
    (∀ labels s, QueueRun cfg labels s → ∀ key, s.timers .debounce key = none ∨ s.timers .retry key = none) ∧
    ∀ pre post key periodic s, QueueRun cfg (pre ++ .accepted key periodic :: post) s → .forgotten key ∉ post →
      (∀ time, .delivered key time ∉ post) → s.stopped = false → Covered key s := by
  constructor
  · intro labels s hrun
    exact (queueRun_ok hrun).timers.exclusive
  · intro pre post key periodic u hrun hforgotten hdelivered hrunning
    obtain ⟨s, t, hpre, hstep, hok, hpost⟩ := queueRun_split hrun
    refine due_run hpost hok (fun hopen => ?_) hforgotten hdelivered hrunning
    have hbefore := stopped_step hstep hopen
    exact accepted_due ((queueRun_ok hpre).orderly hbefore) hstep

/-- An event that waits for its debounce. -/
theorem no_lost_wakeup_event : ∃ s,
    QueueRun ⟨5, 8, 60, fun _ n => n + 1⟩ [.internal, .internal, .accepted ⟨"dns", "edge"⟩ false, .internal] s ∧
      Covered ⟨"dns", "edge"⟩ s := by
  have hrun : QueueRun ⟨5, 8, 60, fun _ n => n + 1⟩
      [.internal, .internal, .accepted ⟨"dns", "edge"⟩ false, .internal] _ :=
    ⟨0, .cons (.callEnqueue _ ⟨"dns", "edge"⟩ none (by decide +kernel) rfl)
      (.cons (.enqueueGoesOn _ _ ⟨"dns", "edge"⟩ 5 mem_cons_self rfl)
      (.cons (.enqueueLocked _ ⟨"dns", "edge"⟩ 5 1 mem_cons_self (by decide))
      (.cons (.tick _ 3 (by decide)) (.nil _))))⟩
  exact ⟨_, hrun, (no_lost_wakeup _).2 [.internal, .internal] [.internal] _ false _ hrun (by decide)
    (fun time => by simp) rfl⟩

/-- **Events do not bypass the backoff, retries are counted, and no retry is dropped.** -/
theorem backoff_respected (cfg : QueueConfig) :
    (∀ pre mid₁ mid₂ post key result time backoff next s,
      QueueRun cfg ((pre ++ mid₁) ++ .failed key result time backoff :: (mid₂ ++ .delivered key next :: post)) s →
      (pre = [] ∨ ∃ before previous, pre = before ++ [.delivered key previous]) →
        .accepted key true ∉ mid₁ ++ mid₂ →
      .forgotten key ∉ mid₂ → (∀ result time backoff, .failed key result time backoff ∉ mid₂) →
      (∀ result, .completed key result ∉ mid₂) → time + backoff ≤ next) ∧
    (∀ labels s key, QueueRun cfg labels s → s.failures key ≤ cfg.maxRetries) ∧
    ∀ pre post key result time backoff s, QueueRun cfg (pre ++ .failed key result time backoff :: post) s →
      result ≠ .exhausted → .forgotten key ∉ post → (∀ time, .delivered key time ∉ post) → s.stopped = false →
      Covered key s := by
  refine ⟨?_, ?_, ?_⟩
  · intro pre mid₁ mid₂ post key result time backoff next u hrun hpre hquiet hforgotten hfailed hcompleted
    rw [mem_append, not_or] at hquiet
    obtain ⟨s, t, ⟨start, hbefore⟩, hstep, hok, hrest⟩ := queueRun_split hrun
    obtain ⟨v, hmid₂, hrest⟩ := hrest.split
    obtain ⟨w, hfirst, hmid₁⟩ := hbefore.split
    cases hrest with
    | cons hdelivered _ =>
      -- no periodic event is left after the previous delivery, and none comes before the next
      have hw : w.periodic key = false := delivered_run ⟨start, hfirst⟩ hpre
      have hs : s.periodic key = false := periodic_run hmid₁ hquiet.1 hw
      have ht : t.periodic key = false := periodic_step hstep nofun hs
      have hv : v.periodic key = false := periodic_run hmid₂ hquiet.2 ht
      have hholds : TargetQueue.Holds key (time + backoff) v :=
        holds_run hmid₂ hforgotten hfailed hcompleted (failed_holds hstep)
      exact delivered_late hdelivered hv hholds
  · intro labels s key hrun
    exact (queueRun_ok hrun).counted key
  · intro pre post key result time backoff u hrun hresult hforgotten hdelivered hrunning
    obtain ⟨s, t, hpre, hstep, hok, hpost⟩ := queueRun_split hrun
    refine due_run hpost hok (fun hopen => ?_) hforgotten hdelivered hrunning
    have hbefore := stopped_step hstep hopen
    exact failed_due ((queueRun_ok hpre).orderly hbefore) hstep hresult

/-- A failure at 1 with a backoff of 10, and the delivery at 11 that follows it. -/
theorem backoff_respected_retry : ∃ s,
    QueueRun ⟨0, 8, 60, fun _ n => 10 * (n + 1)⟩
      (([.internal, .accepted ⟨"dns", "edge"⟩ false, .internal, .delivered ⟨"dns", "edge"⟩ 0] ++ []) ++
        .failed ⟨"dns", "edge"⟩ .retried 1 10 ::
        ([.internal, .internal, .internal] ++ .delivered ⟨"dns", "edge"⟩ 11 :: [])) s ∧
      (1 + 10 : Int) ≤ 11 ∧ s.failures ⟨"dns", "edge"⟩ ≤ 8 := by
  have hrun : QueueRun ⟨0, 8, 60, fun _ n => 10 * (n + 1)⟩
      (([.internal, .accepted ⟨"dns", "edge"⟩ false, .internal, .delivered ⟨"dns", "edge"⟩ 0] ++ []) ++
        .failed ⟨"dns", "edge"⟩ .retried 1 10 ::
        ([.internal, .internal, .internal] ++ .delivered ⟨"dns", "edge"⟩ 11 :: [])) _ :=
    ⟨0, .cons (.callEnqueue _ ⟨"dns", "edge"⟩ none (by decide +kernel) rfl)
      (.cons (.enqueueAnswered _ _ ⟨"dns", "edge"⟩ 0 true mem_cons_self rfl)
      (.cons (.get _ ⟨"dns", "edge"⟩ _ rfl)
      (.cons (.getLocked _ ⟨"dns", "edge"⟩ 0 0 mem_cons_self (by decide) (by decide))
      (.cons (.complete _ ⟨"dns", "edge"⟩ true 1 1 (by decide) (by decide))
      (.cons (.tick _ 11 (by decide))
      (.cons (.expire _ ⟨.retry, ⟨"dns", "edge"⟩, 1, 11⟩ mem_cons_self (by decide))
      (.cons (.get _ ⟨"dns", "edge"⟩ _ rfl)
      (.cons (.getLocked _ ⟨"dns", "edge"⟩ 11 11 mem_cons_self (by decide) (by decide)) (.nil _)))))))))⟩
  refine ⟨_, hrun, ?_, (backoff_respected _).2.1 _ _ _ hrun⟩
  exact (backoff_respected _).1 _ _ _ _ _ _ _ _ _ _ hrun
    (Or.inr ⟨[.internal, .accepted ⟨"dns", "edge"⟩ false, .internal], 0, rfl⟩) (by decide) (by decide)
    (fun result time backoff => by simp) (fun result => by simp)

end FortigateDns
