import FortigateDns.Go.Casing
import FortigateDns.Spec.World

/-!
# A program logic for the claim protocol

What one write may do to a claim (`Allowed`, `KeepsBound`), and a specification for every
program of the repository and for the two-phase create, under any contract whose promises
permit those writes (`Discipline`). A claim that was read stays *found*: its version stands
for its content, so a later write based on it replaces exactly what was read.

* `reserve_safe`, `confirm_safe`: the two phases of a create.
-/

namespace FortigateDns

open Go Conc Store

variable {c n : Claim} {phase : Phase} {name revision print targetName : String} {version : Nat}
variable {identity : Identity} {request : Repository.ReserveRequest} {endpoint : Endpoint}

/-- A confirmed claim is bound to a row. -/
def Bound (c : Claim) : Prop := c.status.phase = .confirmed → c.spec.providerID ≠ ""

/-- **The changes of a claim that one write may make**: target, record and controller stay;
the provider ID of a bound claim changes only by being cleared while the claim is orphaned; a
conflict is not resolved and a reservation not orphaned. -/
structure Allowed (c n : Claim) : Prop where
  targetRef : n.spec.targetRef = c.spec.targetRef
  record : n.spec.record = c.spec.record
  controllerID : n.spec.controllerID = c.spec.controllerID
  providerID : c.spec.providerID ≠ "" → n.spec.providerID ≠ c.spec.providerID →
    n.spec.providerID = "" ∧ c.status.phase = .orphaned ∧ n.status.phase = .orphaned
  conflict : c.status.phase = .conflict → n.status.phase ≠ .confirmed ∧ n.status.phase ≠ .reserved
  reserved : c.status.phase = .reserved → n.status.phase ≠ .orphaned

theorem allowed_of_eq (hs : n.spec = c.spec) (ht : n.status = c.status) : Allowed c n where
  targetRef := by rw [hs]
  record := by rw [hs]
  controllerID := by rw [hs]
  providerID _ hne := absurd (by rw [hs]) hne
  conflict h := by simp [ht, h]
  reserved h := by simp [ht, h]

/-- The phases a claim may be moved to. -/
structure MayBecome (c : Claim) (phase : Phase) : Prop where
  bound : phase = .confirmed → c.spec.providerID ≠ "" ∨ c.status.phase = .confirmed
  conflict : c.status.phase = .conflict → phase ≠ .confirmed ∧ phase ≠ .reserved
  reserved : c.status.phase = .reserved → phase ≠ .orphaned

theorem mayBecome_conflict (c : Claim) : MayBecome c .conflict :=
  ⟨by simp, fun _ => by simp, fun _ => by simp⟩

theorem MayBecome.allowed (h : MayBecome c phase) (hs : n.spec = c.spec) (hp : n.status.phase = phase) :
    Allowed c n where
  targetRef := by rw [hs]
  record := by rw [hs]
  controllerID := by rw [hs]
  providerID _ hne := absurd (by rw [hs]) hne
  conflict hc := by rw [hp]; exact h.conflict hc
  reserved hc := by rw [hp]; exact h.reserved hc

theorem MayBecome.bound_of (h : MayBecome c phase) (hs : n.spec = c.spec) (hp : n.status.phase = phase)
    (hc : Bound c) : Bound n := by
  intro hn
  rw [hs]
  rcases h.bound (hp.symm.trans hn) with hid | hconf
  · exact hid
  · exact hc hconf

/-- A contract under which claims are only written as allowed. `Own name controller` is what
is known of a claim that was read with this name and controller. -/
structure Discipline (C : Contract Call Answer World) (SnapshotOK : World → Snapshot → Prop)
    (Own : String → String → World → Prop) : Prop where
  exec_le : ∀ e w r w', C.exec e w r w' → exec SnapshotOK e w r w'
  later : ∀ w w', C.Rely w w' → Later w.store w'.store
  own_of_mem : ∀ w c, c ∈ w.store.objects → Own c.name c.spec.controllerID w
  own_rely : ∀ name controllerID, C.Stable (Own name controllerID)
  quiet : ∀ e w r, C.Guar e w r w
  replace : ∀ e w r t c n, Replaced w.store t c n → Allowed c n → (Bound c → Bound n) →
    C.Guar e w r { w with store := t }
  add : ∀ e w r t n, Added w.store t n → n.status = {} → C.Guar e w r { w with store := t }

/-- A claim that was read, or is the answer to a write. -/
structure Found (Own : String → String → World → Prop) (c : Claim) (w : World) : Prop where
  seen : Seen c w.store
  own : Own c.name c.spec.controllerID w

variable {C : Contract Call Answer World} {SnapshotOK : World → Snapshot → Prop}
variable {Own : String → String → World → Prop}
variable {α : Type} {Q : α → World → Prop} {w : World} {P : World → Prop}

section

variable (D : Discipline C SnapshotOK Own)

include D

theorem seen_stable (c : Claim) : C.Stable fun w => Seen c w.store :=
  fun w w' h hc => hc.later (D.later w w' h)

theorem found_stable (c : Claim) : C.Stable (Found Own c) :=
  fun w w' h hc => ⟨hc.seen.later (D.later w w' h), D.own_rely _ _ w w' h hc.own⟩

theorem found_of_mem (hc : c ∈ w.store.objects) : Found Own c w :=
  ⟨seen_of_mem hc, D.own_of_mem w c hc⟩

theorem get_safe {K : Claim → World → Prop} (hP : C.Stable P) (hw : P w) (hK : ∀ c, C.Stable (K c))
    (h : ∀ w' c, P w' → c ∈ w'.store.objects → c.name = name → K c w') :
    Safe C (Repository.get name).run (Ensures K) w := by
  refine safe_then_call hP hw fun w' hw' r t hexec => ?_
  replace hexec := D.exec_le _ _ _ _ hexec
  obtain ⟨rfl, hr⟩ := hexec
  refine ⟨D.quiet _ _ _, ?_⟩
  cases r with
  | error err => cases err <;> exact safe_throw
  | ok c =>
    have hget : t.store.get name = .ok c := by
      rcases hr with hr | hr
      · exact hr.symm
      · simp at hr
    exact safe_pure (hK c) (h t c hw' (get_ok hget).1 (get_ok hget).2)

theorem list_safe {K : List Claim → World → Prop} (hP : C.Stable P) (hw : P w)
    (hK : ∀ claims, C.Stable (K claims)) (h : ∀ w', P w' → K w'.store.objects w') :
    Safe C Repository.list.run (Ensures K) w := by
  refine safe_then_call hP hw fun w' hw' r t hexec => ?_
  replace hexec := D.exec_le _ _ _ _ hexec
  obtain ⟨rfl, hr⟩ := hexec
  refine ⟨D.quiet _ _ _, ?_⟩
  cases r with
  | error err => cases err <;> exact safe_throw
  | ok claims =>
    have hclaims : claims = t.store.objects := by
      rcases hr with hr | hr
      · exact Except.ok.inj hr
      · simp at hr
    subst hclaims
    exact safe_pure (hK _) (h t hw')

theorem validSnapshot_safe {K : Snapshot → World → Prop} (hP : C.Stable P) (hw : P w)
    (hK : ∀ snapshot, C.Stable (K snapshot)) (h : ∀ w' snapshot, P w' → SnapshotOK w' snapshot → K snapshot w') :
    Safe C Repository.validSnapshot.run (Ensures K) w := by
  refine safe_then_call hP hw fun w' hw' r t hexec => ?_
  replace hexec := D.exec_le _ _ _ _ hexec
  obtain ⟨rfl, hr⟩ := hexec
  refine ⟨D.quiet _ _ _, ?_⟩
  cases r with
  | error err => exact safe_throw
  | ok snapshot =>
    show Safe C (if validateSnapshot snapshot then pure snapshot else throw .providerSnapshot :
      Action Snapshot).run
      (Ensures K) t
    split
    · exact safe_pure (hK snapshot) (h t snapshot hw' (hr snapshot rfl))
    · exact safe_throw

theorem confirmedTime_safe (hP : C.Stable P) (hw : P w) :
    Safe C (Repository.confirmedTime phase).run (Ensures fun _ => P) w := by
  unfold Repository.confirmedTime
  split
  · refine safe_then_call hP hw fun w' hw' r t hexec => ?_
    replace hexec := D.exec_le _ _ _ _ hexec
    obtain rfl := hexec
    exact ⟨D.quiet _ _ _, safe_pure hP hw'⟩
  · exact safe_pure hP hw

omit D in
theorem outcome_error {α : Type} {result : Except StoreError α × ClaimStore} {err : StoreError}
    {r : Except StoreError α} {w' : World} (h : result = (.error err, w.store)) (hout : Outcome w result r w') :
    w' = w ∧ ∀ a, r ≠ .ok a := by
  subst h
  rcases hout with ⟨rfl, rfl⟩ | ⟨rfl, rfl | rfl⟩ <;> simp

/-- A write that is based on a claim that was read and keeps it in the store: what it promises
and what it answers. -/
theorem outcome_write {finalizers : List String} {spec : ClaimSpec} {status : ClaimStatus}
    {result : Except StoreError Claim × ClaimStore} {r : Except StoreError Claim} {w' : World}
    (hresult : (∃ err, result = (.error err, w.store)) ∨
      ∃ hc : c ∈ w.store.objects, result = w.store.put c hc finalizers spec status) (hout : Outcome w result r w')
    (hfin : finalizers = [] → c.finalizers = [])
    (hm : ∀ n : Claim, n.spec = spec → n.status = status → Allowed c n ∧ (Bound c → Bound n)) :
    (∀ e (r : Answer e), C.Guar e w r w') ∧
      ∀ n, r = .ok n → Found Own n w' ∧ n.name = c.name ∧ n.spec = spec ∧ n.status = status := by
  rcases hresult with ⟨err, rfl⟩ | ⟨hc, rfl⟩
  · obtain ⟨rfl, hr⟩ := outcome_error rfl hout
    exact ⟨fun e r => D.quiet e _ r, fun n hn => absurd hn (hr n)⟩
  rcases put_cases hc finalizers spec status with ⟨hput, hsame⟩ | ⟨n, t, hput, hnew, hrep | ⟨-, hrem⟩⟩
  · -- nothing new: the store and the claim stay as they are
    rw [hput] at hout
    have hw : w' = w := by rcases hout with ⟨-, h⟩ | ⟨-, h | h⟩ <;> exact h
    subst hw
    refine ⟨fun e r => D.quiet e _ r, fun n hn => ?_⟩
    have hnc : n = c := by
      rcases hout with ⟨h, -⟩ | ⟨h, -⟩
      · exact Except.ok.inj (hn.symm.trans h)
      · rw [hn] at h; simp at h
    rw [hnc]
    exact ⟨found_of_mem D hc, rfl, hsame.spec, hsame.status⟩
  · rw [hput] at hout
    obtain ⟨hallow, hbound⟩ := hm n hnew.spec hnew.status
    have hguar : ∀ e (r : Answer e), C.Guar e w r { w with store := t } :=
      fun e r => D.replace e w r t c n hrep hallow hbound
    rcases hout with ⟨rfl, rfl⟩ | ⟨rfl, rfl | rfl⟩
    · refine ⟨hguar, fun n' hn' => ?_⟩
      obtain rfl := Except.ok.inj hn'
      exact ⟨found_of_mem D ((hrep.mem _).2 (Or.inl rfl)), hnew.name, hnew.spec, hnew.status⟩
    · exact ⟨fun e r => D.quiet e _ r, by simp⟩
    · exact ⟨hguar, by simp⟩
  · exact absurd (hfin hrem.2.1) hrem.2.2

/-- **A status update** of a claim that was read. -/
theorem updateStatus_then {req : Claim} {f : Except StoreError Claim → Action α} (hc : Found Own c w)
    (hv : req.resourceVersion = c.resourceVersion)
    (hm : ∀ n : Claim, n.spec = c.spec → n.status = req.status → Allowed c n ∧ (Bound c → Bound n))
    (h : ∀ n t, Found Own n t → n.name = c.name → n.spec = c.spec → n.status = req.status →
      Safe C (f (.ok n)).run (Ensures Q) t) (herr : ∀ err t, Safe C (f (.error err)).run (Ensures Q) t) :
    Safe C (Act.call (Call.updateStatus req) >>= f).run (Ensures Q) w := by
  refine safe_then_call (found_stable D c) hc fun w' hw' r t hexec => ?_
  replace hexec := D.exec_le _ _ _ _ hexec
  obtain ⟨hguar, hans⟩ := outcome_write D (updateStatus_cases hw'.seen hv) hexec id hm
  refine ⟨hguar _ _, ?_⟩
  cases r with
  | error err => exact herr err t
  | ok n =>
    obtain ⟨hn, hname, hs, ht⟩ := hans n rfl
    exact h n t hn hname hs ht

/-- **An update** of a claim that was read, which does not take its last finalizer. -/
theorem update_then {req : Claim} {f : Except StoreError Claim → Action α} (hc : Found Own c w)
    (hv : req.resourceVersion = c.resourceVersion) (hfin : req.finalizers = [] → c.finalizers = [])
    (hm : ∀ n : Claim, n.spec = req.spec → n.status = c.status → Allowed c n ∧ (Bound c → Bound n))
    (h : ∀ n t, Found Own n t → n.name = c.name → n.spec = req.spec → n.status = c.status →
      Safe C (f (.ok n)).run (Ensures Q) t) (herr : ∀ err t, Safe C (f (.error err)).run (Ensures Q) t) :
    Safe C (Act.call (Call.update req) >>= f).run (Ensures Q) w := by
  refine safe_then_call (found_stable D c) hc fun w' hw' r t hexec => ?_
  replace hexec := D.exec_le _ _ _ _ hexec
  obtain ⟨hguar, hans⟩ := outcome_write D (update_cases hw'.seen hv) hexec hfin hm
  refine ⟨hguar _ _, ?_⟩
  cases r with
  | error err => exact herr err t
  | ok n =>
    obtain ⟨hn, hname, hs, ht⟩ := hans n rfl
    exact h n t hn hname hs ht

/-- **A creation**: the new claim is found, without a phase. -/
theorem create_then {draft : Claim} {f : Except StoreError Claim → Action α}
    (h : ∀ n t, Found Own n t → n.name = draft.name → n.spec = draft.spec → n.status = {} →
      Safe C (f (.ok n)).run (Ensures Q) t) (herr : ∀ err t, Safe C (f (.error err)).run (Ensures Q) t) :
    Safe C (Act.call (Call.create draft) >>= f).run (Ensures Q) w := by
  refine safe_then_call (stable_const True) trivial fun w' _ r t hexec => ?_
  replace hexec := D.exec_le _ _ _ _ hexec
  rcases create_cases w'.store draft {} with ⟨err, hcr⟩ | ⟨n, s, hcr, hadd, hname, hs, ht⟩
  · obtain ⟨rfl, hr⟩ := outcome_error hcr hexec
    refine ⟨D.quiet _ _ _, ?_⟩
    cases r with
    | error err => exact herr err t
    | ok n => exact absurd rfl (hr n)
  · simp only [exec, hcr] at hexec
    rcases hexec with ⟨rfl, rfl⟩ | ⟨rfl, rfl | rfl⟩
    · refine ⟨D.add _ w' _ s n hadd ht, h n _ (found_of_mem D ?_) hname hs ht⟩
      exact (hadd.mem n).2 (Or.inr rfl)
    · exact ⟨D.quiet _ _ _, herr _ _⟩
    · exact ⟨D.add _ w' _ s n hadd ht, herr _ _⟩

omit D in
theorem written_then {β : Type} {a : α} {f : α → Action β} {Q : Except OwnershipError β → World → Prop}
    (h : Safe C (f a).run Q w) : Safe C (written (.ok a) >>= f).run Q w := h

/-- A phase is written over a claim with the expected version. `K` is what the caller knows of
the claim with that version. -/
theorem transition_rule (K : Claim → Prop) (hP : C.Stable P) (hw : P w)
    (h : ∀ w' c, P w' → c ∈ w'.store.objects → c.resourceVersion = version → MayBecome c phase ∧ K c) :
    Safe C (Repository.transition name version phase revision).run
      (Ensures fun n w' => Found Own n w' ∧ n.name = name ∧ n.status.phase = phase ∧ ∃ c, K c ∧
        n.spec = c.spec) w := by
  unfold Repository.transition
  refine safe_seq (get_safe D (K := fun c w' => Found Own c w' ∧ c.name = name ∧
    (c.resourceVersion = version → MayBecome c phase ∧ K c)) hP hw
    (fun c => (found_stable D c).and (stable_const _))
    fun w' c hw' hc hname => ⟨found_of_mem D hc, hname, h w' c hw' hc⟩) fun c w' hc => ?_
  obtain ⟨hfound, hname, hmay⟩ := hc
  split
  · exact safe_throw
  · rename_i hver
    obtain ⟨hbecome, hKc⟩ := hmay (by simpa using (not_or.1 hver).2)
    refine safe_seq (confirmedTime_safe D (found_stable D c) hfound) fun now w'' hfound' => ?_
    refine updateStatus_then D hfound' rfl ?_ ?_ fun _ _ => safe_throw
    · intro n hs ht
      have hp : n.status.phase = phase := by rw [ht]; rfl
      exact ⟨hbecome.allowed hs hp, hbecome.bound_of hs hp⟩
    · intro n t hn hname' hs ht
      refine safe_pure ((found_stable D n).and (stable_const _))
        ⟨hn, hname'.trans hname, by rw [ht]; rfl, c, hKc, hs⟩

/-- **A phase is written only over the claim that was checked.** -/
theorem transition_safe (hc : Seen c w.store) (hm : MayBecome c phase) :
    Safe C (Repository.transition name c.resourceVersion phase revision).run
      (Ensures fun n w' => Found Own n w' ∧ n.name = name ∧ n.status.phase = phase ∧ n.spec = c.spec) w := by
  refine safe_mono (Ensures.mono ?_) (transition_rule D (fun x => x = c) (seen_stable D c) hc ?_)
  · rintro n w' ⟨hn, hname, hp, x, rfl, hs⟩
    exact ⟨hn, hname, hp, hs⟩
  · intro w' x hw' hx hv
    obtain rfl := hw'.eq hx hv
    exact ⟨hm, rfl⟩

/-- A conflict may be written over any claim. -/
theorem transition_conflict :
    Safe C (Repository.transition name version .conflict revision).run (fun _ _ => True) w :=
  safe_mono (fun _ _ _ => trivial)
    (transition_rule D (fun _ => True) (stable_const True) trivial fun _ c _ _ _ =>
      ⟨mayBecome_conflict c, trivial⟩)

theorem markClaimsConflict_safe (claims : List Claim) :
    Safe C (Repository.markClaimsConflict claims).run (Ensures fun _ _ => True) w := by
  induction claims generalizing w with
  | nil => exact safe_pure (stable_const True) trivial
  | cons c rest ih => exact safe_attempt_then (transition_conflict D) fun _ _ => ih

/-- The claim was read with the expected version, and is the only one of its record. `K` is what
the caller knows of the claim with that version. -/
theorem revalidateUnique_rule (K : Claim → Prop) (hP : C.Stable P) (hw : P w)
    (h : ∀ w' c, P w' → c ∈ w'.store.objects → c.resourceVersion = version → K c) :
    Safe C (Repository.revalidateUnique name version).run
      (Ensures fun c w' => Found Own c w' ∧ c.name = name ∧ c.resourceVersion = version ∧ K c) w := by
  unfold Repository.revalidateUnique
  refine safe_seq (get_safe D (K := fun c w' => Found Own c w' ∧ c.name = name ∧
    (c.resourceVersion = version → K c)) hP hw
    (fun c => (found_stable D c).and (stable_const _))
    fun w' c hw' hc hname => ⟨found_of_mem D hc, hname, h w' c hw' hc⟩) fun c w' hc => ?_
  obtain ⟨hfound, hname, hK⟩ := hc
  split
  · exact safe_throw
  · rename_i hver
    have hv : c.resourceVersion = version := by simpa using (not_or.1 hver).2
    refine safe_seq (list_safe D (K := fun _ => Found Own c) (found_stable D c) hfound (fun _ => found_stable D c)
      fun _ hw' => hw') fun claims w'' hc' => ?_
    split
    · split
      · exact safe_pure ((found_stable D c).and (stable_const _)) ⟨hc', hname, hv, hK hv⟩
      · exact safe_seq (markClaimsConflict_safe D _) fun _ _ _ => safe_throw
    · exact safe_seq (markClaimsConflict_safe D _) fun _ _ _ => safe_throw

theorem revalidateUnique_safe :
    Safe C (Repository.revalidateUnique name version).run
      (Ensures fun c w' => Found Own c w' ∧ c.name = name ∧ c.resourceVersion = version) w := by
  refine safe_mono (Ensures.mono ?_)
    (revalidateUnique_rule D (fun _ => True) (stable_const True) trivial fun _ _ _ _ _ => trivial)
  rintro c w' ⟨hfound, hname, hv, -⟩
  exact ⟨hfound, hname, hv⟩

/-- What `Reserve` returns: the claim of the identity, under the controller of the request. -/
def Reserved (Own : String → String → World → Prop) (identity : Identity) (request : Repository.ReserveRequest)
    (c : Claim) (w : World) : Prop :=
  Found Own c w ∧ c.name = claimName identity ∧ c.spec.controllerID = trimSpace request.controllerID

theorem reserved_stable (c : Claim) :
    C.Stable (Reserved Own identity request c) := (found_stable D c).and (stable_const _)

/-- The binding is cleared while the claim is orphaned. -/
theorem recoverOrphaned_safe (hc : Reserved Own identity request c w) (hp : c.status.phase = .orphaned) :
    Safe C (Repository.recoverOrphaned c print request).run
      (Ensures fun result w' => Reserved Own identity request (result.getD c) w' ∧ ∀ n, result = some n →
        n.spec = { c.spec with providerID := "", fingerprint := print, sources := request.sources }) w := by
  unfold Repository.recoverOrphaned
  refine safe_seq (validSnapshot_safe D (K := fun _ => Reserved Own identity request c) (reserved_stable D c) hc
    (fun _ => reserved_stable D c) fun _ _ hw' _ => hw') fun snapshot w' hc => ?_
  simp only
  have hnone : Safe C (pure none : Action (Option Claim)).run (Ensures fun result w' =>
      Reserved Own identity request (result.getD c) w' ∧ ∀ n, result = some n →
        n.spec = { c.spec with providerID := "", fingerprint := print, sources := request.sources }) w' :=
    safe_pure ((reserved_stable D c).and (stable_const _)) ⟨hc, nofun⟩
  split
  · exact hnone
  split
  · exact hnone
  obtain ⟨hfound, hname, hctrl⟩ := hc
  refine update_then D hfound rfl ?_ ?_ ?_ fun _ _ => safe_throw
  · intro h
    unfold Repository.withFinalizer at h
    split at h
    · exact h
    · simp at h
  · intro n hs ht
    refine ⟨⟨by rw [hs], by rw [hs], by rw [hs], fun _ _ => ⟨by rw [hs], hp, ht ▸ hp⟩, ?_, ?_⟩, ?_⟩
    · intro h; rw [hp] at h; simp at h
    · intro h; rw [hp] at h; simp at h
    · intro _ h; rw [ht, hp] at h; simp at h
  · intro n t hn hname' hs ht
    have hm : MayBecome n .reserved := by
      refine ⟨by simp, fun h => ?_, fun _ => by simp⟩
      rw [ht, hp] at h
      simp at h
    refine written_then (safe_seq (transition_safe D hn.seen hm) fun m t' hm => ?_)
    obtain ⟨hfound', hname'', -, hspec⟩ := hm
    refine safe_pure ((reserved_stable D m).and (stable_const _))
      ⟨⟨hfound', hname''.trans (hname'.trans hname), ?_⟩, fun n' hn' => ?_⟩
    · rw [Option.getD_some, hspec, hs]
      exact hctrl
    · obtain rfl := Option.some.inj hn'
      exact hspec.trans hs

theorem ensureFinalizer_safe (hc : Found Own c w) :
    Safe C (Repository.ensureFinalizer c).run
      (Ensures fun n w' => Found Own n w' ∧ n.name = c.name ∧ n.spec = c.spec ∧ n.status = c.status) w := by
  unfold Repository.ensureFinalizer
  split
  · exact safe_pure ((found_stable D c).and (stable_const _)) ⟨hc, rfl, rfl, rfl⟩
  · refine update_then D hc rfl (by simp) ?_ ?_ fun _ _ => safe_throw
    · intro n hs ht
      refine ⟨allowed_of_eq hs ht, fun hb hn => ?_⟩
      rw [hs]
      exact hb (ht ▸ hn)
    · intro n t hn hname hs ht
      exact safe_pure ((found_stable D n).and (stable_const _)) ⟨hn, hname, hs, ht⟩

omit D in
theorem claimSpecMatches_congr {controllerID : String} (h : n.spec = c.spec) :
    claimSpecMatches n identity print controllerID =
      claimSpecMatches c identity print controllerID := by
  unfold claimSpecMatches
  rw [h]

theorem reserveExisting_safe (hc : Found Own c w) (hname : c.name = claimName identity) :
    Safe C (Repository.reserveExisting c identity print request).run
      (Ensures fun n w' => Reserved Own identity request n w' ∧
        claimSpecMatches n identity print request.controllerID = true) w := by
  unfold Repository.reserveExisting
  cases hmatch : claimSpecMatches c identity print request.controllerID with
  | false =>
    rw [Bool.not_false, if_pos rfl]
    exact safe_attempt_then (transition_conflict D) fun _ _ => safe_throw
  | true =>
    rw [Bool.not_true, if_neg Bool.false_ne_true]
    have hctrl : c.spec.controllerID = trimSpace request.controllerID := by
      simp only [claimSpecMatches, Bool.and_eq_true, beq_iff_eq] at hmatch
      exact hmatch.2
    refine safe_seq (ensureFinalizer_safe D hc) fun n w' hn => ?_
    obtain ⟨hfound, hname', hs, -⟩ := hn
    have hres : Reserved Own identity request n w' := ⟨hfound, hname'.trans hname, by rw [hs]; exact hctrl⟩
    have hmatch' : claimSpecMatches n identity print request.controllerID = true := by
      rw [claimSpecMatches_congr hs]
      exact hmatch
    split
    · exact safe_pure ((reserved_stable D n).and (stable_const _)) ⟨hres, hmatch'⟩
    · exact safe_pure ((reserved_stable D n).and (stable_const _)) ⟨hres, hmatch'⟩
    · rename_i hphase
      -- an earlier reservation that was interrupted before its status was written
      have hm : MayBecome n .reserved := by
        refine ⟨by simp, fun h => ?_, fun _ => by simp⟩
        rw [hphase] at h
        simp at h
      refine safe_mono (Ensures.mono ?_) (transition_safe D hfound.seen hm)
      rintro m w'' ⟨hm, hmname, -, hmspec⟩
      refine ⟨⟨hm, hmname.trans hres.2.1, by rw [hmspec]; exact hres.2.2⟩, ?_⟩
      rw [claimSpecMatches_congr hmspec]
      exact hmatch'
    · exact safe_throw
    · exact safe_throw

omit D in
theorem checked_then {β γ : Type} {x : Except OwnershipError β} {f : β → Action γ} {Q : γ → World → Prop}
    (h : ∀ b, x = .ok b → Safe C (f b).run (Ensures Q) w) : Safe C (checked x >>= f).run (Ensures Q) w := by
  cases x with
  | error err => exact safe_throw
  | ok b => exact h b rfl

omit D in
theorem mem_of_claimsForRecord {claims logical : List Claim} {record : RecordKey}
    (h : claimsForRecord claims targetName record = logical) (hc : c ∈ logical) : c ∈ claims := by
  rw [← h] at hc
  exact List.mem_of_mem_filter hc

omit D in
theorem identityFor_targetName (h : identityFor targetName endpoint = .ok identity) :
    identity.targetName = toLower (trimSpace targetName) := by
  unfold identityFor at h
  simp only at h
  split at h
  · split at h
    · simp at h
    split at h
    · simp at h
    split at h
    · simp at h
    split at h
    · rw [← Except.ok.inj h]
    · simp at h
  · simp at h

omit D in
/-- The claim that `Reserve` creates is as the request asks. -/
theorem newClaim_matches (hid : identityFor request.targetName request.endpoint = .ok identity)
    (h : n.spec = (Repository.newClaim identity print request).spec) :
    claimSpecMatches n identity print request.controllerID = true := by
  have htrim : trimSpace identity.targetName = identity.targetName := by
    rw [identityFor_targetName hid, trimSpace_toLower, trimSpace_trimSpace]
  rw [claimSpecMatches_congr h]
  simp only [claimSpecMatches, Repository.newClaim, htrim, equalFold_refl, beq_self_eq_true, Bool.and_self]

/-- **`Reserve`** returns the claim of the request's identity, with the controller and the
fingerprint of the request. -/
theorem reserve_safe :
    Safe C (Repository.reserve request).run
      (Ensures fun c w' => ∃ identity print, identityFor request.targetName request.endpoint = .ok identity ∧
        fingerprint request.targetName request.endpoint = .ok print ∧ Reserved Own identity request c w' ∧
        claimSpecMatches c identity print request.controllerID = true) w := by
  unfold Repository.reserve
  refine checked_then fun identity hid => checked_then fun print hprint => ?_
  suffices hres : Safe C _ (Ensures fun c w' => Reserved Own identity request c w' ∧
      claimSpecMatches c identity print request.controllerID = true) w from
    safe_mono (Ensures.mono fun c w' hc => ⟨identity, print, hid, hprint, hc⟩) hres
  split
  · exact safe_throw
  split
  · exact safe_throw
  refine safe_seq (list_safe D (K := fun claims w' => ∀ c ∈ claims, Found Own c w') (stable_const True) trivial
    (fun claims w w' h hK c hc => found_stable D c w w' h (hK c hc))
    fun w' _ c hc => found_of_mem D hc) fun claims w' hclaims => ?_
  split
  · -- no claim yet
    refine create_then D ?_ fun _ _ => safe_throw
    intro n t hn hname hs ht
    have hm : MayBecome n .reserved := by
      refine ⟨by simp, fun h => ?_, fun _ => by simp⟩
      rw [ht] at h
      simp at h
    refine written_then (safe_mono (Ensures.mono ?_) (transition_safe D hn.seen hm))
    rintro m w'' ⟨hm, hmname, -, hmspec⟩
    exact ⟨⟨hm, hmname.trans hname, by rw [hmspec, hs]; rfl⟩, newClaim_matches hid (hmspec.trans hs)⟩
  · rename_i c hlogical
    have hc : Found Own c w' := hclaims c (mem_of_claimsForRecord hlogical (List.mem_singleton.2 rfl))
    split
    · exact safe_seq (markClaimsConflict_safe D _) fun _ _ _ => safe_throw
    rename_i hname
    have hname : c.name = claimName identity := not_not.1 hname
    cases hrec : Repository.recoverable c identity request with
    | false =>
      rw [if_neg Bool.false_ne_true]
      exact reserveExisting_safe D hc hname
    | true =>
      rw [if_pos rfl]
      simp only [Repository.recoverable, Bool.and_eq_true, beq_iff_eq] at hrec
      refine safe_seq (recoverOrphaned_safe D ⟨hc, hname, hrec.2⟩ hrec.1.1.1.1.1) fun result w'' hresult => ?_
      cases result with
      | some n =>
        refine safe_pure ((reserved_stable D n).and (stable_const _)) ⟨hresult.1, ?_⟩
        simp only [claimSpecMatches, hresult.2 n rfl, hrec.1.1.2, hrec.1.2, hrec.2, beq_self_eq_true,
          Bool.and_self]
      | none => exact reserveExisting_safe D hresult.1.1 hname
  · exact safe_seq (markClaimsConflict_safe D _) fun _ _ _ => safe_throw

/-- **`Confirm`** binds a claim before it confirms it, and only one that is not in conflict. -/
theorem confirm_safe {providerID : String} :
    Safe C (Repository.confirm name version providerID revision).run (Ensures fun _ _ => True) w := by
  unfold Repository.confirm
  split
  · exact safe_throw
  rename_i hid
  have hne : providerID ≠ "" := by
    rintro rfl
    exact hid (Or.inl rfl)
  refine safe_seq (revalidateUnique_safe D) fun c w' hc => ?_
  split
  · exact safe_throw
  rename_i hphase
  have hconf : c.status.phase ≠ .conflict := fun h => hphase (by simp [h])
  split
  · exact safe_attempt_then (transition_conflict D) fun _ _ => safe_throw
  rename_i hbound
  split
  · rename_i hdiff
    have hempty : c.spec.providerID = "" := by
      by_contra h
      exact hbound ⟨h, hdiff⟩
    refine update_then D hc.1 rfl id ?_ ?_ fun _ _ => safe_throw
    · intro n hs ht
      refine ⟨⟨by rw [hs], by rw [hs], by rw [hs], fun h => absurd hempty h, ?_, ?_⟩,
        fun _ _ => by rw [hs]; exact hne⟩
      · exact fun h => absurd h hconf
      · intro h; simp [ht, h]
    · intro n t hn hname hs ht
      have hm : MayBecome n .confirmed := by
        refine ⟨fun _ => Or.inl (by rw [hs]; exact hne), fun h => ?_, fun _ => by simp⟩
        rw [ht] at h
        exact absurd h hconf
      exact written_then (safe_mono (Ensures.mono fun _ _ _ => trivial) (transition_safe D hn.seen hm))
  · rename_i hsame
    have hm : MayBecome c .confirmed :=
      ⟨fun _ => Or.inl (by rw [not_not.1 hsame]; exact hne), fun h => absurd h hconf, fun _ => by simp⟩
    exact safe_mono (Ensures.mono fun _ _ _ => trivial) (transition_safe D hc.1.seen hm)

/-- `P` is what the caller learns from a snapshot without a row of the identity. -/
theorem confirmObserved_safe {snapshot : Snapshot} (hc : Found Own c w) (hP : C.Stable P)
    (hw : ∀ found, inspectRecord snapshot.records targetName endpoint "" = .ok found → found.exact = [] →
      found.divergent = [] → P w) :
    Safe C (Manager.confirmObserved c targetName endpoint snapshot).run
      (Ensures fun result w' => result = none → P w') w := by
  unfold Manager.confirmObserved
  refine checked_then fun found hfound => ?_
  split
  · exact safe_attempt_then (transition_conflict D) fun _ _ => safe_throw
  rename_i hdiv
  have hdiv : found.divergent = [] := by
    refine List.eq_nil_of_length_eq_zero ?_
    have := not_or.1 (not_or.1 hdiv).2
    omega
  split
  · rename_i hexact
    split
    · rename_i hphase
      have hm : MayBecome c .orphaned := ⟨by simp, fun _ => by simp, fun h => by simp [hphase] at h⟩
      exact safe_attempt_then (safe_mono (fun _ _ _ => trivial) (transition_safe D hc.seen hm))
        fun _ _ => safe_throw
    · exact safe_pure (fun w w' h hQ hn => hP w w' h (hQ hn)) fun _ => hw found hfound hexact hdiv
  · split
    · exact safe_attempt_then (transition_conflict D) fun _ _ => safe_throw
    · exact safe_seq (confirm_safe D) fun n t _ => safe_pure (fun _ _ _ _ h => by simp at h) (by simp)

theorem relist_safe {created : Except OwnershipError Unit} :
    Safe C (Manager.relist created).run (Ensures fun _ _ => True) w := by
  unfold Manager.relist
  refine safe_attempt_then (safe_mono (fun _ _ _ => trivial) (validSnapshot_safe D (K := fun _ _ => True)
    (stable_const True) trivial (fun _ => stable_const True) fun _ _ _ _ => trivial)) fun after t => ?_
  split
  · exact safe_pure (stable_const True) trivial
  · exact safe_throw
  · exact safe_throw

theorem confirmCreated_safe {created : Except OwnershipError Unit} :
    Safe C (Manager.confirmCreated name request created).run (Ensures fun _ _ => True) w := by
  unfold Manager.confirmCreated
  refine safe_seq (relist_safe D) fun after w' _ => ?_
  refine safe_seq (get_safe D (stable_const True) trivial (found_stable D)
    fun _ _ _ hc _ => found_of_mem D hc) fun c w'' hc => ?_
  refine safe_seq (confirmObserved_safe D hc (stable_const True) fun _ _ _ _ => trivial) fun result t _ => ?_
  split
  · exact safe_pure (stable_const True) trivial
  · exact checked_then fun _ _ => safe_throw

end

/-- What a contract permits of the POST for one request: `Clear identity` is known once a
snapshot has shown no row of the identity while the claim is held. -/
structure CreateDiscipline (C : Contract Call Answer World) (SnapshotOK : World → Snapshot → Prop)
    (Own : String → String → World → Prop) (Clear : Identity → World → Prop)
    (request : Repository.ReserveRequest) : Prop extends Discipline C SnapshotOK Own where
  clear_rely : ∀ identity, C.Stable (Clear identity)
  clear_of_snapshot : ∀ w snapshot identity, identityFor request.targetName request.endpoint = .ok identity →
    SnapshotOK w snapshot → Own (claimName identity) (trimSpace request.controllerID) w →
    (∀ row ∈ snapshot.records, identityFor request.targetName row ≠ .ok identity) → Clear identity w
  post : ∀ w r w' identity, identityFor request.targetName request.endpoint = .ok identity → Clear identity w →
    exec SnapshotOK (.post request.endpoint.normalize identity) w r w' →
    C.Guar (.post request.endpoint.normalize identity) w r w'

/-- Nothing found means that no row has the identity. -/
theorem inspectRecord_none {records : List Endpoint} {providerID : String} {found : Inspection}
    (h : inspectRecord records targetName endpoint providerID = .ok found)
    (hid : identityFor targetName endpoint = .ok identity) (hexact : found.exact = [])
    (hdiv : found.divergent = []) : ∀ row ∈ records, identityFor targetName row ≠ .ok identity := by
  intro row hrow hrid
  unfold inspectRecord at h
  rw [hid] at h
  cases hprint : fingerprint targetName endpoint with
  | error err => rw [hprint] at h; simp [bind, Except.bind] at h
  | ok print =>
    rw [hprint] at h
    obtain rfl := Except.ok.inj h
    simp only [inspect, List.filter_eq_nil_iff, List.mem_filter, and_imp] at hexact hdiv
    have hex := hexact row hrow (by simp [hrid])
    have hdv := hdiv row hrow (by simp [hrid])
    rw [Bool.not_eq_true] at hex
    rw [hex] at hdv
    simp at hdv

/-- **The two-phase create keeps its contract**: it posts only in a state that is clear. -/
theorem reconcileCreate_safe {Clear : Identity → World → Prop}
    (D : CreateDiscipline C SnapshotOK Own Clear request) :
    Safe C (Manager.reconcileCreate request).run (Ensures fun _ _ => True) w := by
  unfold Manager.reconcileCreate
  refine safe_seq (reserve_safe D.toDiscipline) fun c w' hres => ?_
  obtain ⟨identity, -, hid, -, hres, -⟩ := hres
  refine safe_seq (validSnapshot_safe D.toDiscipline (K := fun snapshot w => Found Own c w ∧
    ((∀ row ∈ snapshot.records, identityFor request.targetName row ≠ .ok identity) → Clear identity w))
    (reserved_stable D.toDiscipline c) hres ?_ ?_) fun snapshot w'' hsnap => ?_
  · intro snapshot
    refine (found_stable D.toDiscipline c).and ?_
    exact fun w w' h hclear hrows => D.clear_rely identity w w' h (hclear hrows)
  · rintro w snapshot ⟨hfound, hname, hctrl⟩ hsnap
    refine ⟨hfound, D.clear_of_snapshot w snapshot identity hid hsnap ?_⟩
    rw [← hname, ← hctrl]
    exact hfound.own
  refine safe_seq (confirmObserved_safe D.toDiscipline hsnap.1 (D.clear_rely identity)
    fun found hfound hexact hdiv => hsnap.2 (inspectRecord_none hfound hid hexact hdiv)) fun result t hclear => ?_
  cases result with
  | some n => exact safe_pure (stable_const True) trivial
  | none =>
    dsimp only
    split
    · exact safe_throw
    refine checked_then fun identity' hid' => ?_
    obtain rfl := Except.ok.inj (hid'.symm.trans hid)
    refine safe_then_call (D.clear_rely identity') (hclear rfl) fun s hs r t' hexec => ?_
    replace hexec := D.exec_le _ _ _ _ hexec
    exact ⟨D.post s r t' identity' hid hs hexec, confirmCreated_safe D.toDiscipline⟩

end FortigateDns
