import FortigateDns.Proof.OpenRuns
import FortigateDns.Spec.Shared

/-!
# How the shared client authorizes a request

The part of `applyExisting` until its request, under any contract about the history of a run that
permits the calls it makes (`Permits`). A request is sent only after the claim of its record was read
twice with the same content, was found confirmed, and was compared with the one row that has the ID it
is bound to (`Authorized`).

* `Permits.call_then`, `Permits.safe`: calls and programs of a permitted kind.
-/

namespace FortigateDns

open Go Conc Store

variable {operation : Operation}

namespace Managing

variable {P : Call → Prop} (hP : Managing P)

include hP

theorem calls_providerSnapshot : SharedClient.providerSnapshot.run.Calls P :=
  calls_seq (calls_call hP.snapshot) calls_checked

theorem calls_settleExisting {c : SharedClient} {claim : Claim} :
    (c.settleExisting operation claim).run.Calls P := by
  refine calls_seq hP.calls_providerSnapshot fun after => ?_
  split
  · refine calls_seq hP.calls_reconcileClaim fun reconciled => ?_
    split
    · exact hP.calls_releaseAndDeleteClaim
    · exact calls_pure
  · exact calls_seq (calls_checked _) fun _ => calls_seq hP.calls_rebindConfirmed fun _ => calls_pure

theorem calls_recoverInterruptedClaim {c : SharedClient} : (c.recoverInterruptedClaim operation).run.Calls P := by
  have hcomplete : ∀ claim snapshot observed,
      (c.completeClaim operation claim snapshot observed).run.Calls P := by
    intro claim snapshot observed
    refine calls_seq (calls_call hP.revoked) fun revoked => ?_
    split
    · exact calls_throw
    split
    · exact calls_seq hP.calls_reconcileClaim fun _ => calls_pure
    split
    · exact calls_pure
    split
    · exact calls_pure
    · exact calls_seq hP.calls_rebindConfirmed fun _ => calls_pure
  unfold SharedClient.recoverInterruptedClaim
  split
  · exact calls_pure
  split
  · split
    · exact calls_pure
    refine calls_seq (hP.calls_get _) fun claim => ?_
    split
    · exact calls_pure
    refine calls_seq hP.calls_providerSnapshot fun snapshot => ?_
    split
    · exact calls_pure
    split
    · exact calls_pure
    split
    · exact calls_pure
    · exact hcomplete _ _ _
  · exact calls_pure

end Managing

/-- **What authorized a request** for an operation, by the calls before it: the claim of the
record was read twice with the same content, it is confirmed, and in the latest snapshot exactly
one row has the ID it is bound to, with its fingerprint. -/
structure Authorized (c : SharedClient) (operation : Operation) (h : History) (first second : Claim)
    (snapshot : Snapshot) (row : Endpoint) : Prop where
  reads : ∃ earlier, claimReads h = earlier ++ [first, second]
  same : second = first
  name : ∃ identity, identityFor c.targetName operation.current = .ok identity ∧ first.name = claimName identity
  taken : lastSnapshot h = some snapshot
  phase : first.status.phase = .confirmed
  row_only : providerRecordsByID snapshot.records first.spec.providerID = [row]
  row_print : fingerprint first.spec.targetRef row = .ok first.spec.fingerprint

/-- The calls with `P` have the property `Φ`. -/
def Permits (S : World → Snapshot → Prop) (Φ : History → Event Call Answer World → Prop)
    (P : Call → Prop) : Prop :=
  ∀ e h w r w', P e → exec S e w r w' → Φ h ⟨e, w, r, w'⟩

/-- What is known once the claim has been read and the snapshot taken. -/
structure Prepared (first : Claim) (snapshot : Snapshot) (earlier : List Claim) (s : Logged Call Answer World) :
    Prop where
  seen : Seen first s.state.store
  reads : claimReads s.history = earlier
  taken : lastSnapshot s.history = some snapshot

/-- What `AuthorizeMutation` has established when it succeeds. -/
def Checked (first : Claim) (snapshot : Snapshot) (earlier : List Claim) (s : Logged Call Answer World) : Prop :=
  Prepared first snapshot (earlier ++ [first]) s ∧ first.status.phase = .confirmed ∧
    ∃ row, providerRecordsByID snapshot.records first.spec.providerID = [row] ∧
      fingerprint first.spec.targetRef row = .ok first.spec.fingerprint

/-- What is known after the request: it was the last call, and the claim that authorized it was read. -/
def RequestSent (c : SharedClient) (operation : Operation) (first : Claim)
    (t : Logged Call Answer World) : Prop :=
  Seen first t.state.store ∧ ∃ h sent snapshot row, t.history = h ++ [sent] ∧ sent.call = .apply operation ∧
    Authorized c operation h first first snapshot row

variable {S : World → Snapshot → Prop} {Φ : History → Event Call Answer World → Prop} {P : Call → Prop}
variable {c : SharedClient} {α : Type} {s : Logged Call Answer World}
variable {first : Claim} {snapshot : Snapshot} {earlier : List Claim}

theorem prepared_stable : (logged (exec S) Interference Φ).Stable (Prepared first snapshot earlier) := by
  intro s t h hs
  exact ⟨seen_logged first s t h hs.seen, by rw [h.2]; exact hs.reads, by rw [h.2]; exact hs.taken⟩

theorem checked_stable : (logged (exec S) Interference Φ).Stable (Checked first snapshot earlier) :=
  prepared_stable.and (stable_const _)

namespace Permits

variable (hΦ : Permits S Φ P)

include hΦ

theorem safe {p : Prog Call Answer α} (hp : p.Calls P) (s : Logged Call Answer World) :
    Safe (logged (exec S) Interference Φ) p (fun _ _ => True) s := by
  refine safe_calls hp (fun e u r u' he hexec => ?_) s
  exact hΦ e u.history u.state r u'.state he hexec.1

theorem ensures {x : Action α} (hx : x.run.Calls P) (s : Logged Call Answer World) :
    Safe (logged (exec S) Interference Φ) x.run (Ensures fun _ _ => True) s := by
  refine safe_mono (fun r t _ => ?_) (hΦ.safe hx s)
  cases r <;> trivial

/-- One permitted call, with what is known of the history before it. -/
theorem call_then {e : Call} {f : Answer e → Action α} {K : Logged Call Answer World → Prop}
    {Q : α → Logged Call Answer World → Prop} (he : P e) (hK : (logged (exec S) Interference Φ).Stable K)
    (hs : K s) (h : ∀ s' r w, K s' → exec S e s'.state r w →
      Safe (logged (exec S) Interference Φ) (f r).run (Ensures Q) ⟨w, s'.history ++ [⟨e, s'.state, r, w⟩]⟩) :
    Safe (logged (exec S) Interference Φ) (Act.call e >>= f).run (Ensures Q) s := by
  refine safe_then_call hK hs fun s' hs' r t hexec => ⟨hΦ _ _ _ _ _ he hexec.1, ?_⟩
  obtain ⟨w, history⟩ := t
  obtain ⟨hexec, hhist⟩ := hexec
  obtain rfl : history = s'.history ++ [⟨e, s'.state, r, w⟩] := hhist
  exact h s' r w hs' hexec

variable (hP : Checking P)

include hP

/-- The second read finds the claim as it was at the first. -/
theorem revalidate_same {name : String} (hs : Prepared first snapshot earlier s) :
    Safe (logged (exec S) Interference Φ) (Repository.revalidateUnique name first.resourceVersion).run
      (Ensures fun second t => second = first ∧ Prepared first snapshot (earlier ++ [first]) t) s := by
  unfold Repository.revalidateUnique
  refine safe_seq (P := fun second t => second.resourceVersion = first.resourceVersion →
    second = first ∧ Prepared first snapshot (earlier ++ [first]) t) ?_ fun second t hsecond => ?_
  · refine hΦ.call_then (hP.get name) prepared_stable hs fun s' r w hs' hexec => ?_
    obtain ⟨rfl, hr⟩ := hexec
    cases r with
    | error err => cases err <;> exact safe_throw
    | ok second =>
      have hmem : second ∈ s'.state.store.objects := by
        rcases hr with hr | hr
        · exact (get_ok hr.symm).1
        · simp at hr
      refine safe_pure (fun a b h hb hv => ⟨(hb hv).1, prepared_stable a b h (hb hv).2⟩) fun hv => ?_
      obtain rfl := hs'.seen.eq hmem hv
      refine ⟨rfl, hs'.seen, ?_, ?_⟩
      · rw [claimReads_append, hs'.reads]
        rfl
      · rw [lastSnapshot_append, hs'.taken]
        rfl
  · split
    · exact safe_throw
    rename_i hver
    obtain ⟨rfl, hprep⟩ := hsecond (by simpa using (not_or.1 hver).2)
    refine safe_seq (P := fun _ => Prepared second snapshot (earlier ++ [second])) ?_ fun claims t' hprep => ?_
    · refine hΦ.call_then hP.list prepared_stable hprep fun s' r w hs' hexec => ?_
      obtain ⟨rfl, -⟩ := hexec
      cases r with
      | error err => cases err <;> exact safe_throw
      | ok claims =>
        refine safe_pure prepared_stable ⟨hs'.seen, ?_, ?_⟩
        · rw [claimReads_append, hs'.reads]
          simp [readClaim]
        · rw [lastSnapshot_append, hs'.taken]
          rfl
    split
    · split
      · exact safe_pure ((stable_const _).and prepared_stable) ⟨rfl, hprep⟩
      · exact safe_seq (hΦ.ensures (hP.calls_markClaimsConflict _) _) fun _ _ _ => safe_throw
    · exact safe_seq (hΦ.ensures (hP.calls_markClaimsConflict _) _) fun _ _ _ => safe_throw

theorem markConflict_fails {claim : Claim} {revision : String} {Q : Unit → Logged Call Answer World → Prop} :
    Safe (logged (exec S) Interference Φ) (do
      let _ ← attempt (Repository.markConflict claim.name claim.resourceVersion revision)
      throw .providerConflict : Action Unit).run (Ensures Q) s :=
  safe_attempt_then (hΦ.safe hP.calls_markConflict _) fun _ _ => safe_throw

/-- `AuthorizeMutation` succeeds only for a confirmed claim whose row is as it claims. -/
theorem authorize_checks {t : OperationType} {precondition : Manager.MutationPrecondition} {revision : String}
    (hpre : precondition = Manager.preconditionForClaim .shared first revision)
    (hs : Prepared first snapshot earlier s) :
    Safe (logged (exec S) Interference Φ) (Manager.authorizeMutation t precondition snapshot).run
      (Ensures fun _ => Checked first snapshot earlier) s := by
  have hmode : precondition.mode = .shared := by rw [hpre]; rfl
  have hversion : precondition.ownership.resourceVersion = first.resourceVersion := by rw [hpre]; rfl
  have hid : precondition.ownership.providerID = first.spec.providerID := by rw [hpre]; rfl
  have hprint : precondition.ownership.fingerprint = first.spec.fingerprint := by rw [hpre]; rfl
  have htarget : precondition.targetName = first.spec.targetRef := by rw [hpre]; rfl
  unfold Manager.authorizeMutation
  rw [hversion, hid]
  split
  · rename_i hexclusive
    rw [hmode] at hexclusive
    simp at hexclusive
  · exact safe_throw
  split
  · exact safe_throw
  split
  · exact safe_throw
  split
  · exact safe_throw
  split
  · exact safe_throw
  refine safe_seq (hΦ.revalidate_same hP hs) fun second t hsecond => ?_
  obtain ⟨rfl, hprep⟩ := hsecond
  split
  · exact safe_throw
  rename_i hphase
  split
  · exact safe_throw
  split
  · rename_i row hrow
    split
    · rename_i hunchanged
      refine safe_pure checked_stable ⟨hprep, not_not.1 hphase, row, hrow, ?_⟩
      simp only [Manager.rowUnchanged, Bool.and_eq_true, beq_iff_eq, htarget, hprint] at hunchanged
      exact hunchanged.1
    · exact hΦ.markConflict_fails hP
  · exact hΦ.markConflict_fails hP

/-- **The request of a mutation is authorized.** -/
theorem executeMutation {revision : String} {identity : Identity}
    (hsend : ∀ h w r w' first snapshot row, Authorized c operation h first first snapshot row →
      exec S (.apply operation) w r w' → Φ h ⟨.apply operation, w, r, w'⟩)
    (hid : identityFor c.targetName operation.current = .ok identity) (hname : first.name = claimName identity)
    (hseen : Seen first s.state.store) (hreads : claimReads s.history = earlier ++ [first]) :
    Safe (logged (exec S) Interference Φ)
      (Manager.executeMutation operation.type (Manager.preconditionForClaim .shared first revision)
        (SharedClient.mutate operation)).run (Ensures fun _ => RequestSent c operation first) s := by
  unfold Manager.executeMutation
  refine hΦ.call_then hP.snapshot ((seen_logged first).and
    (history_logged fun h => claimReads h = earlier ++ [first]))
    ⟨hseen, hreads⟩ fun s' r w hs' hexec => ?_
  obtain ⟨rfl, -⟩ := hexec
  cases r with
  | error err => exact safe_throw
  | ok snapshot =>
    have hprep : Prepared first snapshot (earlier ++ [first])
        ⟨s'.state, s'.history ++ [⟨.snapshot, s'.state, .ok snapshot, s'.state⟩]⟩ := by
      refine ⟨hs'.1, ?_, ?_⟩
      · rw [claimReads_append, hs'.2]
        simp [readClaim]
      · rw [lastSnapshot_append]
        rfl
    refine safe_pure_then (safe_seq (hΦ.authorize_checks hP rfl hprep) fun _ t hchecked => ?_)
    refine hΦ.call_then hP.canceled checked_stable hchecked fun s'' canceled w hs'' hexec => ?_
    obtain rfl := hexec
    split
    · exact safe_throw
    obtain ⟨hprep, hphase, row, hrow, hprint⟩ := hs''
    have hprep : Prepared first snapshot (earlier ++ [first] ++ [first])
        ⟨s''.state, s''.history ++ [⟨.canceled, s''.state, canceled, s''.state⟩]⟩ := by
      refine ⟨hprep.seen, ?_, ?_⟩
      · rw [claimReads_append, hprep.reads]
        simp [readClaim]
      · rw [lastSnapshot_append, hprep.taken]
        rfl
    -- the request itself
    refine safe_then_call prepared_stable hprep fun u hu r t hexec => ?_
    have ha : Authorized c operation u.history first first snapshot row :=
      ⟨⟨earlier, by rw [hu.reads]; simp⟩, rfl, ⟨identity, hid, hname⟩, hu.taken, hphase, hrow, hprint⟩
    refine ⟨hsend u.history u.state r t.state first snapshot row ha hexec.1, ?_⟩
    have hsent : RequestSent c operation first t := by
      have hstore : t.state.store = u.state.store := hexec.1
      refine ⟨by rw [hstore]; exact hu.seen, u.history, _, snapshot, row, hexec.2, rfl, ha⟩
    cases r with
    | error err => exact safe_throw
    | ok _ =>
      exact safe_pure ((seen_logged first).and (history_logged fun history => ∃ h sent snapshot row,
        history = h ++ [sent] ∧ sent.call = .apply operation ∧
          Authorized c operation h first first snapshot row)) hsent

/-- **The rule for `applyExisting`**: what is left is that the request, once it is authorized, is as promised, and
what follows it. -/
theorem applyExisting (hsend : ∀ h w r w' first snapshot row, Authorized c operation h first first snapshot row →
      exec S (.apply operation) w r w' → Φ h ⟨.apply operation, w, r, w'⟩)
    (hsettle : ∀ first t, RequestSent c operation first t → Safe (logged (exec S) Interference Φ)
      (c.settleExisting operation first).run (Ensures fun _ _ => True) t) :
    Safe (logged (exec S) Interference Φ) (c.applyExisting operation).run (Ensures fun _ _ => True) s := by
  unfold SharedClient.applyExisting
  cases hid : identityFor c.targetName operation.current with
  | error err => exact safe_throw
  | ok identity =>
    -- the first read of the claim
    refine safe_pure_then ?_
    refine safe_seq (P := fun first t => first.name = claimName identity ∧ Seen first t.state.store ∧
      ∃ earlier, claimReads t.history = earlier ++ [first]) ?_ fun first t hfirst => ?_
    · refine hΦ.call_then (hP.get _) (stable_const True) trivial fun s' r w _ hexec => ?_
      obtain ⟨rfl, hr⟩ := hexec
      cases r with
      | error err => cases err <;> exact safe_throw
      | ok first =>
        have hget : s'.state.store.get (claimName identity) = .ok first := by
          rcases hr with hr | hr
          · exact hr.symm
          · simp at hr
        refine safe_pure ((stable_const _).and ((seen_logged first).and
          (history_logged fun h => ∃ earlier, claimReads h = earlier ++ [first]))) ?_
        refine ⟨(get_ok hget).2, seen_of_mem (get_ok hget).1, claimReads s'.history, ?_⟩
        rw [claimReads_append]
        rfl
    obtain ⟨hname, hseen, earlier, hreads⟩ := hfirst
    refine safe_seq (P := fun _ t => Seen first t.state.store ∧ claimReads t.history = earlier ++ [first]) ?_
      fun snapshot t hsnap => ?_
    · have hstable : (logged (exec S) Interference Φ).Stable fun t =>
          Seen first t.state.store ∧ claimReads t.history = earlier ++ [first] :=
        (seen_logged first).and (history_logged fun h => claimReads h = earlier ++ [first])
      refine hΦ.call_then hP.snapshot hstable ⟨hseen, hreads⟩ fun s' r w hs' hexec => ?_
      obtain ⟨rfl, -⟩ := hexec
      cases r with
      | error err => exact safe_throw
      | ok snapshot =>
        refine safe_pure hstable ⟨hs'.1, ?_⟩
        rw [claimReads_append, hs'.2]
        simp [readClaim]
    exact safe_seq (hΦ.executeMutation hP hsend hid hname hsnap.1 hsnap.2) fun _ t hsent => hsettle first t hsent

end Permits

end FortigateDns
