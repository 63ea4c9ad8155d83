import FortigateDns.Spec.AuditSchedule

/-!
# The cadence of audits over runs

* `Reported.next`, `Kept`: after a report the deadline is one interval away, and every call keeps
  the deadline at least there.
* `audit_cadence`: **audits are an interval apart and never later than the first successful call
  after their deadline**; what `Delay` may return, failed calls, absent targets.
-/

namespace FortigateDns

open Go List

variable {state state' : DueState} {t : TargetSchedule} {n m : Nat}

section Call

variable (s : AuditSchedule) (c : DueCall)

/-- The listing of a target that counts. -/
def DueCall.listed (key : TargetKey) : Option TargetSchedule := c.targets.find? fun t => t.key = key

/-- The deadline that a listed target has after the call. -/
def DueCall.after (t : TargetSchedule) : AuditDeadline :=
  if (c.entry s t).next ≤ c.now then { c.entry s t with next := c.now + t.effective c.fallback } else c.entry s t

/-- `Due` returns no error. -/
def AuditSchedule.succeeds : Prop := ∃ keys, (s.due c).1 = .ok keys

/-- The call reports that the target is due. -/
def AuditSchedule.reports (key : TargetKey) : Prop := ∃ keys, (s.due c).1 = .ok keys ∧ key ∈ keys

/-- What the loop makes of a state. -/
structure Looped (targets : List TargetSchedule) (state state' : DueState) : Prop where
  lookup : ∀ key, state'.next.lookup key =
    (state.next.lookup key).or ((targets.find? fun t => t.key = key).map (c.after s))
  mem_due : ∀ key, key ∈ state'.due ↔ key ∈ state.due ∨
    state.next.lookup key = none ∧ ∃ t, targets.find? (fun t => t.key = key) = some t ∧ (c.entry s t).next ≤ c.now
  intervals : ∀ t ∈ targets, 0 ≤ t.interval

variable {s c}

/-- One round of the loop. -/
theorem target_looped (h : c.target s state t = .ok state') : Looped s c [t] state state' := by
  unfold DueCall.target at h
  split at h
  · cases h
  rename_i hvalid
  rw [not_or, not_lt] at hvalid
  have hinterval : ∀ t' ∈ [t], 0 ≤ t'.interval := by
    intro t' ht'
    rw [mem_singleton.1 ht']
    exact hvalid.2
  have hfind : ∀ key, [t].find? (fun t => decide (t.key = key)) = if t.key = key then some t else none := by
    intro key
    by_cases hkey : t.key = key <;> simp [hkey]
  split at h
  · -- the target was listed before
    rename_i hseen
    cases h
    refine ⟨fun key => ?_, fun key => ?_, hinterval⟩
    · rw [hfind]
      split
      · rename_i hkey
        subst hkey
        obtain ⟨entry, hentry⟩ := Option.isSome_iff_exists.1 hseen
        rw [hentry, Option.some_or]
      · rw [Option.map_none, Option.or_none]
    · refine ⟨Or.inl, fun hmem => hmem.resolve_right ?_⟩
      rintro ⟨hnone, t', ht', -⟩
      rw [hfind] at ht'
      split at ht'
      · rename_i hkey
        rw [hkey, hnone] at hseen
        cases hseen
      · cases ht'
  · rename_i hnew
    rw [Bool.not_eq_true, Option.isSome_eq_false_iff, Option.isNone_iff_eq_none] at hnew
    dsimp only at h
    have hlookup : ∀ (entry : AuditDeadline), entry = c.after s t → ∀ key,
        (state.next.insert t.key entry).lookup key =
          (state.next.lookup key).or (([t].find? fun t => t.key = key).map (c.after s)) := by
      intro entry hentry key
      rw [hfind]
      split
      · rename_i hkey
        subst hkey
        rw [AList.lookup_insert, hnew, hentry]
        rfl
      · rename_i hkey
        rw [AList.lookup_insert_ne (Ne.symm hkey), Option.map_none, Option.or_none]
    split at h
    · rename_i hdue
      cases h
      refine ⟨hlookup _ (by unfold DueCall.after; rw [if_pos hdue]), fun key => ?_, hinterval⟩
      rw [mem_append, mem_singleton, hfind]
      refine or_congr_right ⟨?_, ?_⟩
      · rintro rfl
        exact ⟨hnew, t, if_pos rfl, hdue⟩
      · rintro ⟨-, t', ht', -⟩
        split at ht'
        · rename_i hkey
          exact hkey.symm
        · cases ht'
    · rename_i hdue
      cases h
      refine ⟨hlookup _ (by unfold DueCall.after; rw [if_neg hdue]), fun key => ?_, hinterval⟩
      refine ⟨Or.inl, fun hmem => hmem.resolve_right ?_⟩
      rintro ⟨-, t', ht', hdue'⟩
      rw [hfind] at ht'
      split at ht'
      · cases ht'
        exact hdue hdue'
      · cases ht'

/-- Rounds compose: the first listing of a target counts. -/
theorem Looped.append {l l' : List TargetSchedule} {between : DueState} (h : Looped s c l state between)
    (h' : Looped s c l' between state') : Looped s c (l ++ l') state state' := by
  refine ⟨fun key => ?_, fun key => ?_, fun t ht => (mem_append.1 ht).elim (h.intervals t) (h'.intervals t)⟩
  · rw [h'.lookup, h.lookup, find?_append, Option.or_assoc]
    cases List.find? (fun t => decide (t.key = key)) l <;> rfl
  · rw [h'.mem_due, h.mem_due, h.lookup, or_assoc]
    refine or_congr_right ?_
    rw [Option.or_eq_none_iff, find?_append]
    cases hfind : List.find? (fun t => decide (t.key = key)) l with
    | none =>
      rw [Option.none_or, Option.map_none]
      simp
    | some t =>
      rw [Option.some_or, Option.map_some]
      simp

theorem foldlM_looped {targets : List TargetSchedule} (h : targets.foldlM (c.target s) state = .ok state') :
    Looped s c targets state state' := by
  induction targets generalizing state with
  | nil =>
    cases h
    exact ⟨fun key => by simp, fun key => by simp, fun t ht => by cases ht⟩
  | cons t targets ih =>
    rw [foldlM_cons] at h
    cases hstep : c.target s state t with
    | error e =>
      rw [hstep] at h
      cases h
    | ok between =>
      rw [hstep] at h
      exact (target_looped hstep).append (ih h)

/-- A call that fails leaves the schedule as it is. -/
theorem due_error {e : ScheduleError} (h : (s.due c).1 = .error e) : (s.due c).2 = s := by
  unfold AuditSchedule.due at h ⊢
  split
  · rfl
  · rename_i hfallback
    rw [if_neg hfallback] at h
    split
    · rfl
    · rename_i state hstate
      rw [hstate] at h
      cases h

/-- **What a successful call does to every target.** -/
structure Audited (s : AuditSchedule) (c : DueCall) (keys : List TargetKey) (s' : AuditSchedule) : Prop where
  lookup : ∀ key, s'.deadlines.lookup key = (c.listed key).map (c.after s)
  mem : ∀ key, key ∈ keys ↔ ∃ t, c.listed key = some t ∧ (c.entry s t).next ≤ c.now
  positive : ∀ t ∈ c.targets, 0 < t.effective c.fallback

/-- What one successful call does to every target: its first listing decides whether it is reported
and which deadline it gets, and without a listing it is forgotten. -/
theorem due_spec {keys : List TargetKey} (h : (s.due c).1 = .ok keys) : Audited s c keys (s.due c).2 := by
  unfold AuditSchedule.due at h ⊢
  split at h
  · cases h
  rename_i hfallback
  rw [if_neg hfallback]
  split at h
  · cases h
  rename_i state hstate
  obtain ⟨hlookup, hmem, hintervals⟩ := foldlM_looped hstate
  obtain rfl := Except.ok.inj h
  refine ⟨fun key => ?_, fun key => ?_, fun t ht => ?_⟩
  · exact (hlookup key).trans (by rw [AList.lookup_empty, Option.none_or]; rfl)
  · rw [(perm_insertionSort _ _).mem_iff, hmem]
    refine ⟨fun hin => ?_, fun hin => .inr ⟨AList.lookup_empty key, hin⟩⟩
    rcases hin with hnil | hin
    · cases hnil
    · exact hin.2
  · have hnonneg := hintervals t ht
    unfold TargetSchedule.effective
    split <;> omega

theorem reports_iff {key : TargetKey} :
    s.reports c key ↔ s.succeeds c ∧ ∃ t, c.listed key = some t ∧ (c.entry s t).next ≤ c.now := by
  constructor
  · rintro ⟨keys, hkeys, hmem⟩
    exact ⟨⟨keys, hkeys⟩, ((due_spec hkeys).mem key).1 hmem⟩
  · rintro ⟨⟨keys, hkeys⟩, hin⟩
    exact ⟨keys, hkeys, ((due_spec hkeys).mem key).2 hin⟩

theorem lookup_due (key : TargetKey) (h : s.succeeds c) :
    (s.due c).2.deadlines.lookup key = (c.listed key).map (c.after s) := by
  obtain ⟨keys, hkeys⟩ := h
  exact (due_spec hkeys).lookup key

theorem effective_pos {key : TargetKey} (h : s.succeeds c) (ht : c.listed key = some t) :
    0 < t.effective c.fallback := by
  obtain ⟨keys, hkeys⟩ := h
  exact (due_spec hkeys).positive t (mem_of_find?_eq_some ht)

/-- A call that does not succeed leaves the schedule as it is. -/
theorem due_unchanged (h : ¬ s.succeeds c) : (s.due c).2 = s := by
  cases hresult : (s.due c).1 with
  | error e => exact due_error hresult
  | ok keys => exact absurd ⟨keys, hresult⟩ h

/-- The target is listed exactly once, with this revision and effective interval. -/
def DueCall.Steady (c : DueCall) (key : TargetKey) (revision : String) (interval : Int) : Prop :=
  ∃ t, c.targets.filter (fun t => t.key = key) = [t] ∧ t.revision = revision ∧ t.effective c.fallback = interval

variable {key : TargetKey} {revision : String} {interval : Int}

theorem Steady.listed (h : c.Steady key revision interval) :
    ∃ t, c.listed key = some t ∧ t.key = key ∧ t.revision = revision ∧ t.effective c.fallback = interval := by
  obtain ⟨t, hfilter, hrevision, hinterval⟩ := h
  have hlisted : c.listed key = some t := by
    unfold DueCall.listed
    rw [← head?_filter, hfilter]
    rfl
  have hkey := find?_some hlisted
  rw [decide_eq_true_eq] at hkey
  exact ⟨t, hlisted, hkey, hrevision, hinterval⟩

/-- A stored deadline of the same revision and interval is kept. -/
theorem entry_of_stored {next : Int}
    (hstored : s.deadlines.lookup t.key = some ⟨t.revision, t.effective c.fallback, next⟩) :
    c.entry s t = ⟨t.revision, t.effective c.fallback, next⟩ := by
  unfold DueCall.entry
  rw [hstored]
  simp

/-- Every deadline of an entry carries the target's revision and interval. -/
theorem entry_fields (t : TargetSchedule) :
    (c.entry s t).revision = t.revision ∧ (c.entry s t).interval = t.effective c.fallback := by
  unfold DueCall.entry
  split
  · exact ⟨rfl, rfl⟩
  · split
    · exact ⟨rfl, rfl⟩
    · rename_i h
      rw [not_or, not_not, not_not] at h
      exact h

/-- **After a report the deadline is one interval away.** -/
theorem Reported.next (hsteady : c.Steady key revision interval) (h : s.reports c key) :
    (s.due c).2.deadlines.lookup key = some ⟨revision, interval, c.now + interval⟩ := by
  obtain ⟨hok, t, ht, hdue⟩ := reports_iff.1 h
  obtain ⟨t', ht', -, rfl, rfl⟩ := Steady.listed hsteady
  obtain rfl : t = t' := Option.some.inj (ht.symm.trans ht')
  obtain ⟨hrevision, hinterval⟩ := entry_fields (s := s) (c := c) t
  rw [lookup_due _ hok, ht, Option.map_some]
  unfold DueCall.after
  rw [if_pos hdue]
  dsimp only
  rw [hrevision, hinterval]

/-- **With a stored deadline, a successful call reports exactly when it has passed.** -/
theorem reports_stored {next : Int} (hsteady : c.Steady key revision interval) (hok : s.succeeds c)
    (hstored : s.deadlines.lookup key = some ⟨revision, interval, next⟩) : s.reports c key ↔ next ≤ c.now := by
  obtain ⟨t, ht, rfl, rfl, rfl⟩ := Steady.listed hsteady
  have hentry := entry_of_stored hstored
  rw [reports_iff]
  constructor
  · rintro ⟨-, t', ht', hdue⟩
    obtain rfl : t' = t := Option.some.inj (ht'.symm.trans ht)
    rwa [hentry] at hdue
  · intro hdue
    exact ⟨hok, t, ht, by rw [hentry]; exact hdue⟩

/-- A call that does not report the target keeps its deadline. -/
theorem lookup_unreported {next : Int} (hsteady : c.Steady key revision interval) (h : ¬ s.reports c key)
    (hstored : s.deadlines.lookup key = some ⟨revision, interval, next⟩) :
    (s.due c).2.deadlines.lookup key = some ⟨revision, interval, next⟩ := by
  by_cases hok : s.succeeds c
  · have hlate := mt (reports_stored hsteady hok hstored).2 h
    obtain ⟨t, ht, rfl, rfl, rfl⟩ := Steady.listed hsteady
    rw [lookup_due _ hok, ht, Option.map_some]
    unfold DueCall.after
    rw [entry_of_stored hstored, if_neg hlate]
  · rw [due_unchanged hok]
    exact hstored

/-- A target without a deadline is new: it is reported at once or not at all, and its deadline
starts now. -/
theorem new_target (ht : c.listed key = some t) (hok : s.succeeds c) (hnone : s.deadlines.lookup key = none) :
    (s.reports c key ↔ c.immediateNew = true) ∧ (s.due c).2.deadlines.lookup key =
      some ⟨t.revision, t.effective c.fallback, c.now + t.effective c.fallback⟩ := by
  have hpos := effective_pos hok ht
  have hkey : t.key = key := by simpa using find?_some ht
  have hentry : c.entry s t = c.fresh t := by
    unfold DueCall.entry
    rw [hkey, hnone]
  have hdue : (c.entry s t).next ≤ c.now ↔ c.immediateNew = true := by
    rw [hentry]
    unfold DueCall.fresh
    dsimp only
    cases c.immediateNew with
    | true => simp
    | false =>
      simp only [Bool.false_eq_true, ↓reduceIte, iff_false, not_le]
      omega
  refine ⟨?_, ?_⟩
  · rw [reports_iff, ← hdue]
    refine ⟨fun ⟨_, t', ht', h⟩ => ?_, fun h => ⟨hok, t, ht, h⟩⟩
    obtain rfl : t' = t := Option.some.inj (ht'.symm.trans ht)
    exact h
  · rw [lookup_due _ hok, ht, Option.map_some]
    unfold DueCall.after
    rw [hentry]
    split
    · rfl
    · rename_i hlate
      rw [← hentry, hdue, Bool.not_eq_true] at hlate
      unfold DueCall.fresh
      rw [hlate]
      rfl

end Call

section Run

variable (s : AuditSchedule) (calls : Nat → DueCall)

/-- The schedule before call `n`. -/
def scheduleAt : Nat → AuditSchedule
  | 0 => s
  | n + 1 => ((scheduleAt n).due (calls n)).2

/-- Call `n` succeeds. -/
def SucceedsAt (n : Nat) : Prop := (scheduleAt s calls n).succeeds (calls n)

/-- Call `n` reports the target. -/
def ReportsAt (key : TargetKey) (n : Nat) : Prop := (scheduleAt s calls n).reports (calls n) key

variable {s calls} {count : Nat} {key : TargetKey} {revision : String} {interval : Int}

/-- Without a report in between, the deadline stays. -/
theorem lookup_scheduleAt (hsteady : ∀ n < count, (calls n).Steady key revision interval) (hm : m ≤ count)
    (hreport : ReportsAt s calls key n) (hnm : n < m) (hnone : ∀ k, n < k → k < m → ¬ ReportsAt s calls key k) :
    (scheduleAt s calls m).deadlines.lookup key = some ⟨revision, interval, (calls n).now + interval⟩ := by
  induction m, hnm using Nat.le_induction with
  | base => exact Reported.next (hsteady n hm) hreport
  | succ m hnm ih =>
    have hkept := ih (Nat.le_of_succ_le hm) fun k hk hkm => hnone k hk (hkm.trans (Nat.lt_succ_self m))
    exact lookup_unreported (hsteady m hm) (hnone m hnm (Nat.lt_succ_self m)) hkept

/-- **Every later deadline is at least an interval after a report.** -/
theorem deadline_after_report (hsteady : ∀ n < count, (calls n).Steady key revision interval)
    (hmono : ∀ n m, n ≤ m → m < count → (calls n).now ≤ (calls m).now) (hm : m ≤ count)
    (hreport : ReportsAt s calls key n) (hnm : n < m) :
    ∃ next, (scheduleAt s calls m).deadlines.lookup key = some ⟨revision, interval, next⟩ ∧
      (calls n).now + interval ≤ next := by
  induction m, hnm using Nat.le_induction with
  | base => exact ⟨_, Reported.next (hsteady n hm) hreport, le_refl _⟩
  | succ m hnm ih =>
    obtain ⟨next, hstored, hle⟩ := ih (Nat.le_of_succ_le hm)
    by_cases hagain : ReportsAt s calls key m
    · have hlater := hmono n m (Nat.le_of_succ_le hnm) hm
      exact ⟨_, Reported.next (hsteady m hm) hagain, Int.add_le_add_right hlater interval⟩
    · exact ⟨next, lookup_unreported (hsteady m hm) hagain hstored, hle⟩

/-- A target that is not listed stays without a deadline. -/
theorem lookup_absent (hok : SucceedsAt s calls n) (habsent : (calls n).listed key = none) (hnm : n < m)
    (hbetween : ∀ k, n < k → k < m → SucceedsAt s calls k → (calls k).listed key = none) :
    (scheduleAt s calls m).deadlines.lookup key = none := by
  have hstep : ∀ k, SucceedsAt s calls k → (calls k).listed key = none →
      (scheduleAt s calls (k + 1)).deadlines.lookup key = none := by
    intro k hk hlisted
    have hlookup := lookup_due key hk
    rw [hlisted] at hlookup
    exact hlookup
  induction m, hnm using Nat.le_induction with
  | base => exact hstep n hok habsent
  | succ m hnm ih =>
    by_cases hsucceeds : SucceedsAt s calls m
    · exact hstep m hsucceeds (hbetween m hnm (Nat.lt_succ_self m) hsucceeds)
    · have hkept : scheduleAt s calls (m + 1) = scheduleAt s calls m := due_unchanged hsucceeds
      rw [hkept]
      exact ih fun k hk hkm => hbetween k hk (hkm.trans (Nat.lt_succ_self m))

end Run

theorem foldl_delay_le (entries : List (Sigma fun _ : TargetKey => AuditDeadline)) (now delay : Int) :
    let r := entries.foldl
      (fun delay entry => if timeSub entry.2.next now < delay then timeSub entry.2.next now else delay) delay
    r ≤ delay ∧ ∀ e ∈ entries, r ≤ timeSub e.2.next now := by
  induction entries generalizing delay with
  | nil => exact ⟨le_refl _, fun e he => by cases he⟩
  | cons entry entries ih =>
    obtain ⟨hle, hall⟩ := ih (if timeSub entry.2.next now < delay then timeSub entry.2.next now else delay)
    dsimp only at hle hall ⊢
    rw [foldl_cons]
    have hboth : (if timeSub entry.2.next now < delay then timeSub entry.2.next now else delay) ≤ delay ∧
        (if timeSub entry.2.next now < delay then timeSub entry.2.next now else delay) ≤
          timeSub entry.2.next now := by
      split <;> omega
    refine ⟨hle.trans hboth.1, fun e he => ?_⟩
    rcases mem_cons.1 he with rfl | he
    · exact hle.trans hboth.2
    · exact hall e he

/-- A positive difference of times is not exceeded by its saturated value. -/
theorem timeSub_le {t u : Int} (h : u < t) : timeSub t u ≤ t - u := by
  unfold timeSub
  omega

theorem delay_spec (s : AuditSchedule) (now : Int) {fallback : Int} (hfallback : 0 < fallback) :
    0 ≤ s.delay now fallback ∧ s.delay now fallback ≤ fallback ∧
      ∀ key d, s.deadlines.lookup key = some d → now < d.next → s.delay now fallback ≤ d.next - now := by
  obtain ⟨hle, hall⟩ := foldl_delay_le s.deadlines.entries now fallback
  unfold AuditSchedule.delay
  dsimp only at hle hall ⊢
  refine ⟨by split <;> omega, by split <;> omega, fun key d hd hfuture => ?_⟩
  have hmem : (⟨key, d⟩ : Sigma fun _ : TargetKey => AuditDeadline) ∈ s.deadlines.entries :=
    AList.mem_lookup_iff.1 hd
  have hentry := (hall ⟨key, d⟩ hmem).trans (timeSub_le hfuture)
  split <;> omega

/-- What the first `count` calls do to a target that they list steadily. -/
structure AuditCadence (s : AuditSchedule) (calls : Nat → DueCall) (count : Nat) (key : TargetKey)
    (revision : String) (interval : Int) : Prop where
  /-- Two reports are at least one interval apart. -/
  apart : ∀ n m, n < m → m < count → ReportsAt s calls key n → ReportsAt s calls key m →
    (calls n).now + interval ≤ (calls m).now
  /-- Every successful call at or after the stored deadline reports. -/
  punctual : ∀ n < count, SucceedsAt s calls n → ∀ d, (scheduleAt s calls n).deadlines.lookup key = some d →
    d.revision = revision → d.interval = interval → d.next ≤ (calls n).now → ReportsAt s calls key n
  /-- A deadline of this revision and interval is stored once a call has succeeded. -/
  stored : ∀ n m, n < m → m ≤ count → SucceedsAt s calls n →
    ∃ next, (scheduleAt s calls m).deadlines.lookup key = some ⟨revision, interval, next⟩
  /-- Consecutive audits are no further apart than the interval and the time since the last
  successful call. -/
  gap : ∀ n j m, n ≤ j → j < m → m < count → ReportsAt s calls key n → ReportsAt s calls key m →
    (∀ k, n < k → k < m → ¬ ReportsAt s calls key k) → SucceedsAt s calls j →
    (calls m).now - (calls n).now ≤ interval + ((calls m).now - (calls j).now)

section Cadence

variable {s : AuditSchedule} {calls : Nat → DueCall} {count : Nat} {key : TargetKey} {revision : String}
  {interval : Int}
  (hsteady : ∀ n < count, (calls n).Steady key revision interval)

include hsteady in
theorem stored_of_succeeds (hnm : n < m) (hm : m ≤ count) (hok : SucceedsAt s calls n) :
    ∃ next, (scheduleAt s calls m).deadlines.lookup key = some ⟨revision, interval, next⟩ := by
  induction m, hnm using Nat.le_induction with
  | base =>
    obtain ⟨t, ht, -, rfl, rfl⟩ := Steady.listed (hsteady n hm)
    have hlookup := lookup_due key hok
    rw [ht, Option.map_some] at hlookup
    obtain ⟨hrevision, hinterval⟩ := entry_fields (s := scheduleAt s calls n) (c := calls n) t
    refine ⟨((calls n).after (scheduleAt s calls n) t).next, hlookup.trans (congrArg some ?_)⟩
    unfold DueCall.after
    rw [← hrevision, ← hinterval]
    split <;> rfl
  | succ m hnm ih =>
    obtain ⟨next, hstored⟩ := ih (Nat.le_of_succ_le hm)
    by_cases hagain : ReportsAt s calls key m
    · exact ⟨_, Reported.next (hsteady m hm) hagain⟩
    · exact ⟨next, lookup_unreported (hsteady m hm) hagain hstored⟩

include hsteady in
theorem auditCadence (hmono : ∀ n m, n ≤ m → m < count → (calls n).now ≤ (calls m).now) :
    AuditCadence s calls count key revision interval where
  apart n m hnm hm hn hreport := by
    obtain ⟨next, hstored, hle⟩ := deadline_after_report hsteady hmono (Nat.le_of_lt hm) hn hnm
    have hok := (reports_iff.1 hreport).1
    exact hle.trans ((reports_stored (hsteady m hm) hok hstored).1 hreport)
  punctual n hn hok d hd hrevision hinterval hpast := by
    obtain ⟨r, i, next⟩ := d
    obtain rfl : r = revision := hrevision
    obtain rfl : i = interval := hinterval
    exact (reports_stored (hsteady n hn) hok hd).2 hpast
  stored n m hnm hm hok := stored_of_succeeds hsteady hnm hm hok
  gap n j m hnj hjm hm hn hreport hnone hok := by
    rcases Nat.eq_or_lt_of_le hnj with rfl | hnj
    · obtain ⟨t, ht, -, -, rfl⟩ := Steady.listed (hsteady n (hjm.trans hm))
      have hpos := effective_pos hok ht
      omega
    · -- the deadline stood when call `j` passed the target over
      have hstored := lookup_scheduleAt hsteady (Nat.le_of_lt (hjm.trans hm)) hn hnj
        fun k hk hkj => hnone k hk (hkj.trans hjm)
      have hearly := mt (reports_stored (hsteady j (hjm.trans hm)) hok hstored).2 (hnone j hnj hjm)
      omega

end Cadence

/-- **The cadence of audits, over every sequence of calls**; what `Delay` returns; failed calls; and
targets that a call did not list. -/
theorem audit_cadence :
    (∀ (s : AuditSchedule) (calls : Nat → DueCall) (count : Nat) (key : TargetKey) (revision : String)
      (interval : Int),
      (∀ n m, n ≤ m → m < count → (calls n).now ≤ (calls m).now) →
      (∀ n < count, (calls n).Steady key revision interval) →
      AuditCadence s calls count key revision interval) ∧
    (∀ (s : AuditSchedule) (now fallback : Int), 0 < fallback →
      0 ≤ s.delay now fallback ∧ s.delay now fallback ≤ fallback ∧
      ∀ key d, s.deadlines.lookup key = some d → now < d.next → s.delay now fallback ≤ d.next - now) ∧
    (∀ (s : AuditSchedule) (c : DueCall) (e : ScheduleError), (s.due c).1 = .error e → (s.due c).2 = s) ∧
    (∀ (s : AuditSchedule) (calls : Nat → DueCall) (key : TargetKey) (n m : Nat), n < m →
      SucceedsAt s calls n → (∀ t ∈ (calls n).targets, t.key ≠ key) →
      (∀ k, n < k → k < m → SucceedsAt s calls k → ∀ t ∈ (calls k).targets, t.key ≠ key) →
      (scheduleAt s calls m).deadlines.lookup key = none ∧
      ∀ t, (calls m).listed key = some t → SucceedsAt s calls m →
        (ReportsAt s calls key m ↔ (calls m).immediateNew = true) ∧
        (scheduleAt s calls (m + 1)).deadlines.lookup key = some
          ⟨t.revision, t.effective (calls m).fallback, (calls m).now + t.effective (calls m).fallback⟩) := by
  have hunlisted : ∀ (c : DueCall) (key : TargetKey), (∀ t ∈ c.targets, t.key ≠ key) → c.listed key = none := by
    intro c key h
    unfold DueCall.listed
    rw [find?_eq_none]
    intro t ht
    rw [decide_eq_true_eq]
    exact h t ht
  refine ⟨fun s calls count key revision interval hmono hsteady => auditCadence hsteady hmono,
    fun s now fallback hfallback => delay_spec s now hfallback, fun s c e h => due_error h, ?_⟩
  intro s calls key n m hnm hok habsent hbetween
  have hnone := lookup_absent hok (hunlisted _ _ habsent) hnm fun k hk hkm hs =>
    hunlisted _ _ (hbetween k hk hkm hs)
  exact ⟨hnone, fun t ht hsucceeds => new_target ht hsucceeds hnone⟩

/-- Polls ten nanoseconds apart of a target with that interval. -/
def polls (n : Nat) : DueCall where
  now := 10 * n
  targets := [⟨⟨"dns", "fast"⟩, "v1", 10⟩]
  fallback := 60
  immediateNew := true

theorem audit_cadence_polls :
    let s : AuditSchedule := ⟨∅⟩
    ReportsAt s polls ⟨"dns", "fast"⟩ 0 ∧ ReportsAt s polls ⟨"dns", "fast"⟩ 1 ∧
      (polls 0).now + 10 ≤ (polls 1).now ∧ (polls 1).now - (polls 0).now ≤ 10 +
      ((polls 1).now - (polls 0).now) := by
  intro s
  have hsteady : ∀ n < 2, (polls n).Steady ⟨"dns", "fast"⟩ "v1" 10 := fun n _ => ⟨_, rfl, rfl, rfl⟩
  have hmono : ∀ n m, n ≤ m → m < 2 → (polls n).now ≤ (polls m).now := by
    intro n m hnm _
    unfold polls
    dsimp only
    omega
  have hfirst : ReportsAt s polls ⟨"dns", "fast"⟩ 0 := ⟨[⟨"dns", "fast"⟩], by decide +kernel, by decide⟩
  have hsecond : ReportsAt s polls ⟨"dns", "fast"⟩ 1 := ⟨[⟨"dns", "fast"⟩], by decide +kernel, by decide⟩
  have hcadence := audit_cadence.1 s polls 2 ⟨"dns", "fast"⟩ "v1" 10 hmono hsteady
  exact ⟨hfirst, hsecond, hcadence.apart 0 1 (by decide) (by decide) hfirst hsecond,
    hcadence.gap 0 0 1 (by decide) (by decide) (by decide) hfirst hsecond (fun k hk hk' => by omega)
      (reports_iff.1 hfirst).1⟩

end FortigateDns
