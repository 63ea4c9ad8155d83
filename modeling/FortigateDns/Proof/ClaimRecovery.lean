import FortigateDns.Go.JsonFrames
import FortigateDns.Proof.SharedMutation

/-!
# Interrupted claims are completed, rows are not adopted

Over every run of `recoverInterruptedClaim`, whatever others write between its calls. The claim is
checked once and written by version, so what is written over is what was checked; and the row that
`ReconcileClaim` finds again by the claim's fingerprint is the row that was checked by its ID, unless
two fingerprints collide.

* `Entitled`, `Shows`, `Completed`: the claim before the write, the snapshot, the claim after it.
* `confirm_recovers`, `rebind_recovers`: the two ways a claim is completed.
-/

namespace FortigateDns

open Go Conc Store List

variable {targetName name revision : String} {n : Claim} {h : History} {w w' : World} {observed : Endpoint}

/-- The text that is hashed for a fingerprint. -/
def recordText (identity : Identity) (ttl : Int) (disabled : Bool) : List Char :=
  Json.object [("identity", identity.canonical), ("ttl", Json.int ttl),
    ("status", Json.string (if disabled then "disable" else "enable"))]

theorem fingerprint_text {endpoint : Endpoint} {identity : Identity}
    (h : identityFor targetName endpoint = .ok identity) :
    fingerprint targetName endpoint =
      .ok (String.ofList (sha256Hex (recordText identity endpoint.ttl endpoint.disabled))) := by
  unfold fingerprint
  rw [h]
  rfl

/-- The JSON value of an identity. -/
def Identity.value (identity : Identity) : Json.Value :=
  .object [("targetName", .string identity.targetName), ("zone", .string identity.zone),
    ("dnsName", .string identity.dnsName), ("recordType", .string identity.recordType),
    ("target", .string identity.target)]

theorem render_identity (identity : Identity) : Json.render identity.value = identity.canonical := by
  unfold Identity.value Identity.canonical
  rw [Json.render_object]
  simp only [map_cons, map_nil, Json.render_string]

theorem Identity.value_injective : Function.Injective Identity.value := by
  rintro ⟨t, z, n, k, a⟩ ⟨t', z', n', k', a'⟩ h
  unfold Identity.value at h
  simp only [Json.Value.object.injEq, List.cons.injEq, Prod.mk.injEq, Json.Value.string.injEq, true_and,
    and_true] at h
  obtain ⟨rfl, rfl, rfl, rfl, rfl⟩ := h
  rfl

/-- **The text that is hashed tells the identity.** -/
theorem recordText_inj {i j : Identity} {ttl ttl' : Int} {disabled disabled' : Bool}
    (h : recordText i ttl disabled = recordText j ttl' disabled') : i = j := by
  have hrender : ∀ (i : Identity) (ttl : Int) (disabled : Bool), recordText i ttl disabled =
      Json.render (.object [("identity", i.value), ("ttl", .int ttl),
        ("status", .string (if disabled then "disable" else "enable"))]) := by
    intro i ttl disabled
    rw [Json.render_object]
    simp only [map_cons, map_nil, Json.render_string, Json.render_int, render_identity]
    rfl
  have hinj : ∀ v v' : Json.Value, Json.render v = Json.render v' → v = v' := by
    intro v v' heq
    have hends : Json.Ends [] := fun c hc => by cases hc
    exact (Json.delimited_render v v' [] [] hends hends (by rw [heq])).1
  rw [hrender, hrender] at h
  have hvalue := hinj _ _ h
  simp only [Json.Value.object.injEq, List.cons.injEq, Prod.mk.injEq, true_and] at hvalue
  exact Identity.value_injective hvalue.1

/-- The digests of the two records do not collide. -/
def NoCollision (targetName : String) (row desired : Endpoint) : Prop :=
  ∀ i j, identityFor targetName row = .ok i → identityFor targetName desired = .ok j →
    sha256Hex (recordText i row.ttl row.disabled) = sha256Hex (recordText j desired.ttl desired.disabled) →
    recordText i row.ttl row.disabled = recordText j desired.ttl desired.disabled

/-- A row with the fingerprint of a record has its identity. -/
theorem NoCollision.identity {print : String} {row desired : Endpoint} {j : Identity}
    (h : NoCollision targetName row desired) (hrow : fingerprint targetName row = .ok print)
    (hdesired : fingerprint targetName desired = .ok print) (hj : identityFor targetName desired = .ok j) :
    identityFor targetName row = .ok j := by
  cases hi : identityFor targetName row with
  | error err =>
    unfold fingerprint at hrow
    rw [hi] at hrow
    cases hrow
  | ok i =>
    rw [fingerprint_text hi] at hrow
    rw [fingerprint_text hj, ← hrow] at hdesired
    have hdigest := String.ofList_injective (Except.ok.inj hdesired).symm
    rw [recordText_inj (h i j hi hj hdigest)]

/-- The write changes the phase to confirmed, the bound provider ID or the fingerprint. -/
def Advances (o n : Claim) : Prop :=
  (n.status.phase = .confirmed ∧ o.status.phase ≠ .confirmed) ∨ n.spec.providerID ≠ o.spec.providerID ∨
    n.spec.fingerprint ≠ o.spec.fingerprint

theorem not_advances {o : Claim} (hspec : n.spec = o.spec)
    (hphase : n.status.phase = .confirmed → o.status.phase = .confirmed) : ¬ Advances o n := by
  rintro (⟨hn, ho⟩ | hid | hprint)
  · exact ho (hphase hn)
  · exact hid (by rw [hspec])
  · exact hprint (by rw [hspec])

/-- **The claim may be completed** by this client, for this operation. -/
structure Entitled (c : SharedClient) (operation : Operation) (o : Claim) : Prop where
  objectNamespace : o.objectNamespace = c.clientNamespace
  target : o.spec.targetRef = c.targetName
  controller : o.spec.controllerID = c.controller
  alive : o.deleting = false
  record : ∃ identity, identityFor c.targetName operation.current = .ok identity ∧
    identityFor c.targetName operation.desired = .ok identity ∧ o.name = claimName identity ∧
    o.spec.record = recordKey identity
  source : operation.desired.source.uid ≠ "" ∧ operation.desired.source ∈ o.spec.sources
  phase : (o.status.phase = .confirmed ∧ o.spec.providerID = operation.current.providerID) ∨
    (o.status.phase = .reserved ∧ fingerprint c.targetName operation.desired = .ok o.spec.fingerprint ∧
      (o.spec.providerID = "" ∨ o.spec.providerID = operation.current.providerID))

/-- **The stable snapshot shows the record**: exactly one row has the provider ID, with the fingerprint of
the desired record. -/
structure Shows (c : SharedClient) (operation : Operation) (snapshot : Snapshot) : Prop where
  stable : snapshot.stable = true ∧ snapshot.revision ≠ ""
  row : ∃ row print, snapshot.records.filter (fun r => r.providerID == operation.current.providerID) = [row] ∧
    fingerprint c.targetName row = .ok print ∧ fingerprint c.targetName operation.desired = .ok print

/-- **The claim has the provider ID and the fingerprint.** -/
structure Completed (c : SharedClient) (operation : Operation) (n : Claim) : Prop where
  providerID : n.spec.providerID = operation.current.providerID
  fingerprint : fingerprint c.targetName operation.desired = .ok n.spec.fingerprint

/-- A call that binds and confirms nothing and takes no snapshot. -/
def Calm : Call → Prop
  | .create _ | .update _ | .snapshot | .post _ _ | .apply _ => False
  | .updateStatus claim => claim.status.phase ≠ .confirmed
  | _ => True

theorem calm_marking : Marking Calm where
  get _ := trivial
  list := trivial
  now := trivial
  conflict _ h := by
    show _ ≠ Phase.confirmed
    rw [h]
    decide

/-- Claims are only changed over the version of a claim that may be completed, and completed by that. -/
def RecoveryEvent (c : SharedClient) (operation : Operation) (h : History)
    (ev : Event Call Answer World) : Prop :=
  ∀ n ∈ ev.after.store.objects, ∃ o ∈ ev.before.store.objects, o.uid = n.uid ∧ (Advances o n →
    ∃ snapshot, lastSnapshot h = some snapshot ∧ Shows c operation snapshot ∧ Entitled c operation o ∧
      Completed c operation n)

/-- The snapshots are such that no row's fingerprint collides with that of the desired record. -/
def Told (c : SharedClient) (operation : Operation) (_ : World) (snapshot : Snapshot) : Prop :=
  ∀ row ∈ snapshot.records, NoCollision c.targetName row operation.desired

/-- The contract of a recovery, under any interference. -/
def recoveryContract (c : SharedClient) (operation : Operation) : Contract Call Answer
    (Logged Call Answer World) :=
  logged (exec (Told c operation)) Interference (RecoveryEvent c operation)

variable {c : SharedClient} {operation : Operation} {S : World → Snapshot → Prop} {α : Type}
variable {snapshot : Snapshot} {o : Claim} {s : Logged Call Answer World}

/-- A claim that stays is not changed. -/
theorem kept_event (hn : n ∈ w.store.objects) :
    ∃ o ∈ w.store.objects, o.uid = n.uid ∧ (Advances o n → ∃ snapshot, lastSnapshot h = some snapshot ∧
      Shows c operation snapshot ∧ Entitled c operation o ∧ Completed c operation n) :=
  ⟨n, hn, rfl, fun hadv => absurd hadv (not_advances rfl id)⟩

theorem calm_event {e : Call} {r : Answer e} (he : Calm e) (hexec : exec S e w r w') :
    RecoveryEvent c operation h ⟨e, w, r, w'⟩ := by
  intro n hn
  rcases exec_wrote hexec hn with hold | hwrote
  · exact kept_event hold
  cases hwrote with
  | create hnew hstatus => exact absurd he id
  | update ho hver hn => exact absurd he id
  | updateStatus ho hver hn =>
    refine ⟨_, ho, hn.uid.symm, fun hadv => absurd hadv (not_advances hn.spec fun hphase => ?_)⟩
    rw [hn.status] at hphase
    exact absurd hphase he
  | delete ho huid hspec hstatus =>
    refine ⟨_, ho, huid.symm, fun hadv => absurd hadv (not_advances hspec fun hphase => ?_)⟩
    rwa [hstatus] at hphase

theorem calm_snapshot {e : Call} {r : Answer e} (he : Calm e) : readSnapshot ⟨e, w, r, w'⟩ = none := by
  cases e with
  | snapshot => exact absurd he id
  | _ => rfl

theorem lastSnapshot_calm {ev : Event Call Answer World} (hev : readSnapshot ev = none) :
    lastSnapshot (h ++ [ev]) = lastSnapshot h := by
  rw [lastSnapshot_append, hev]
  rfl

/-- A program of calm calls does what it does, and the snapshot stays the latest. -/
theorem calm_safe {x : Action α} {Q : α → World → Prop} (hx : x.run.Calls Calm)
    (hk : lastSnapshot s.history = some snapshot) (h : Safe openContract x.run (Ensures Q) s.state) :
    Safe (recoveryContract c operation) x.run
      (Ensures fun a t => Q a t.state ∧ lastSnapshot t.history = some snapshot) s := by
  refine quiet_safe (J := fun h => lastSnapshot h = some snapshot) hx (fun e h w r w' he hJ hexec => ?_) hk h
  refine ⟨calm_event he hexec, ?_⟩
  rw [lastSnapshot_calm (calm_snapshot he)]
  exact hJ

theorem calm_ensures {x : Action α} (hx : x.run.Calls Calm) :
    Safe (recoveryContract c operation) x.run (Ensures fun _ _ => True) s := by
  have hsafe : Safe (recoveryContract c operation) x.run (fun _ _ => True) s := by
    refine safe_calls hx (fun e u r u' he hexec => ?_) s
    exact calm_event he hexec.1
  refine safe_mono (fun r _ _ => ?_) hsafe
  cases r <;> trivial

theorem taken_stable : (recoveryContract c operation).Stable fun t => lastSnapshot t.history = some snapshot :=
  history_logged fun h => lastSnapshot h = some snapshot

/-- A claim that may be completed still may be when only its binding and fingerprint were written. -/
theorem Entitled.rewritten {finalizers : List String} {id print : String} (h : Entitled c operation o)
    (hn : Rewritten o n finalizers { o.spec with providerID := id, fingerprint := print } o.status)
    (hphase : (o.status.phase = .confirmed ∧ id = operation.current.providerID) ∨
      (o.status.phase = .reserved ∧ fingerprint c.targetName operation.desired = .ok print ∧
        (id = "" ∨ id = operation.current.providerID))) : Entitled c operation n where
  objectNamespace := by rw [hn.objectNamespace, h.objectNamespace]
  target := by rw [hn.spec, h.target]
  controller := by rw [hn.spec, h.controller]
  alive := by rw [hn.deleting, h.alive]
  record := by
    obtain ⟨identity, hcurrent, hdesired, hname, hrecord⟩ := h.record
    exact ⟨identity, hcurrent, hdesired, by rw [hn.name, hname], by rw [hn.spec, hrecord]⟩
  source := by
    rw [hn.spec]
    exact h.source
  phase := by
    rw [hn.spec, hn.status]
    exact hphase

/-- **A confirmation** of the claim whose version it was given. -/
theorem transition_recovers (ho : Seen o s.state.store) (hk : lastSnapshot s.history = some snapshot)
    (hshows : Shows c operation snapshot) (hentitled : Entitled c operation o) (hdone : Completed c operation o) :
    Safe (recoveryContract c operation) (Repository.transition name o.resourceVersion .confirmed revision).run
      (Ensures fun _ _ => True) s := by
  unfold Repository.transition
  refine safe_seq (calm_safe (calm_marking.calls_get name) hk (get_seen ho)) fun found t hfound => ?_
  obtain ⟨⟨-, hseen, heq⟩, hk⟩ := hfound
  split
  · exact safe_throw
  rename_i hver
  obtain rfl := heq (by simpa using (not_or.1 hver).2)
  refine safe_seq (calm_safe (calm_marking.calls_confirmedTime _) hk
    (confirmedTime_safe open_discipline (seen_stable open_discipline found) hseen.seen)) fun now t' ht' => ?_
  refine safe_then_call ((seen_logged found).and taken_stable) ht' fun u hu r u' hexec => ⟨?_, ?_⟩
  · intro n hn
    rcases exec_wrote hexec.1 hn with hold | hwrote
    · exact kept_event hold
    -- what is confirmed is the claim that was read
    obtain ⟨hfound, hn⟩ := wrote_updateStatus hwrote hu.1 rfl
    refine ⟨found, hfound, hn.uid.symm, fun _ => ⟨snapshot, hu.2, hshows, hentitled, ?_⟩⟩
    refine ⟨by rw [hn.spec, hdone.providerID], by rw [hn.spec, hdone.fingerprint]⟩
  · cases r with
    | error err => exact safe_throw
    | ok n => exact safe_pure (stable_const True) trivial

/-- **The binding or the fingerprint of a claim is written**, and what was written is confirmed. -/
theorem update_recovers {revision id print : String} (ho : Seen o s.state.store)
    (hk : lastSnapshot s.history = some snapshot) (hshows : Shows c operation snapshot)
    (hentitled : Entitled c operation o)
    (hphase : (o.status.phase = .confirmed ∧ id = operation.current.providerID) ∨
      (o.status.phase = .reserved ∧ fingerprint c.targetName operation.desired = .ok print ∧
        (id = "" ∨ id = operation.current.providerID)))
    (hid : id = operation.current.providerID) (hprint : fingerprint c.targetName operation.desired = .ok print) :
    Safe (recoveryContract c operation) (do
        let result ← Act.call (Call.update
          { o with spec := { o.spec with providerID := id, fingerprint := print } })
        let bound ← written result
        Repository.transition bound.name bound.resourceVersion .confirmed revision : Action Claim).run
      (Ensures fun _ _ => True) s := by
  refine safe_then_call ((seen_logged o).and taken_stable) ⟨ho, hk⟩ fun u hu r u' hexec => ⟨?_, ?_⟩
  · intro n hn
    rcases exec_wrote hexec.1 hn with hold | hwrote
    · exact kept_event hold
    obtain ⟨hold, hn⟩ := wrote_update hwrote hu.1 rfl
    refine ⟨o, hold, hn.uid.symm, fun _ => ⟨snapshot, hu.2, hshows, hentitled, ?_⟩⟩
    exact ⟨by rw [hn.spec]; exact hid, by rw [hn.spec]; exact hprint⟩
  · cases r with
    | error err => exact safe_throw
    | ok n =>
      obtain ⟨hold, hn, hseen⟩ := update_answered hexec.1 hu.1 rfl
      have hk' : lastSnapshot u'.history = some snapshot := by
        rw [hexec.2, lastSnapshot_calm rfl]
        exact hu.2
      refine transition_recovers hseen hk' hshows (hentitled.rewritten hn hphase) ?_
      exact ⟨by rw [hn.spec]; exact hid, by rw [hn.spec]; exact hprint⟩

/-- **`Confirm`** of a reserved claim, for the row that was checked. -/
theorem confirm_recovers (ho : Seen o s.state.store) (hk : lastSnapshot s.history = some snapshot)
    (hshows : Shows c operation snapshot) (hentitled : Entitled c operation o)
    (hreserved : o.status.phase = .reserved) :
    Safe (recoveryContract c operation)
      (Repository.confirm name o.resourceVersion operation.current.providerID revision).run
      (Ensures fun _ _ => True) s := by
  have hprint : fingerprint c.targetName operation.desired = .ok o.spec.fingerprint := by
    rcases hentitled.phase with ⟨hconfirmed, -⟩ | ⟨-, hprint, -⟩
    · rw [hreserved] at hconfirmed
      cases hconfirmed
    · exact hprint
  unfold Repository.confirm
  split
  · exact safe_throw
  refine safe_seq (calm_safe calm_marking.calls_revalidateUnique hk (revalidate_seen ho)) fun found t hfound => ?_
  obtain ⟨⟨rfl, hseen⟩, hk⟩ := hfound
  split
  · exact safe_throw
  split
  · refine safe_attempt_then ?_ fun _ _ => safe_throw
    exact safe_mono (fun _ _ _ => trivial) (calm_ensures calm_marking.calls_markConflict)
  split
  · exact update_recovers hseen hk hshows hentitled (.inr ⟨hreserved, hprint, .inr rfl⟩) rfl hprint
  · rename_i hsame
    exact transition_recovers hseen hk hshows hentitled ⟨not_not.1 hsame, hprint⟩

/-- **`RebindConfirmed`** of a confirmed claim, to the fingerprint of the row that was checked. -/
theorem rebind_recovers (ho : Seen o s.state.store) (hk : lastSnapshot s.history = some snapshot)
    (hshows : Shows c operation snapshot) (hentitled : Entitled c operation o)
    (hobserved : fingerprint c.targetName observed = fingerprint c.targetName operation.desired) :
    Safe (recoveryContract c operation) (Repository.rebindConfirmed name o.resourceVersion c.targetName observed
      operation.current.providerID revision).run (Ensures fun _ _ => True) s := by
  unfold Repository.rebindConfirmed
  refine safe_seq (calm_safe calm_marking.calls_revalidateUnique hk (revalidate_seen ho)) fun found t hfound => ?_
  obtain ⟨⟨rfl, hseen⟩, hk⟩ := hfound
  split
  · exact safe_throw
  rename_i hconfirmed
  cases identityFor c.targetName observed with
  | error err => exact safe_throw
  | ok identity =>
    refine safe_pure_then ?_
    split
    · exact safe_throw
    rename_i hsame
    have hid : found.spec.providerID = operation.current.providerID := not_not.1 (not_or.1 (not_or.1 hsame).2).2
    cases hprint : fingerprint c.targetName observed with
    | error err => exact safe_throw
    | ok print =>
      refine safe_pure_then ?_
      exact update_recovers hseen hk hshows hentitled (.inl ⟨not_not.1 hconfirmed, hid⟩) hid (hobserved ▸ hprint)

/-- The row with the fingerprint of a claim and its record is the one that was checked by its ID. -/
theorem reconciled_row {row : Endpoint} {rest : List Endpoint} {identity : Identity}
    (htold : ∀ row ∈ snapshot.records, NoCollision c.targetName row operation.desired)
    (hobserved : observed ∈ snapshot.records)
    (hprint : fingerprint c.targetName observed = .ok o.spec.fingerprint)
    (hwanted : fingerprint c.targetName operation.desired = .ok o.spec.fingerprint)
    (hidentity : identityFor c.targetName operation.desired = .ok identity)
    (hrecord : o.spec.record = recordKey identity)
    (hone : ¬ 1 < (inspectClaimRecords snapshot.records c.targetName o).exact.length)
    (hexact : (inspectClaimRecords snapshot.records c.targetName o).exact = row :: rest) : row = observed := by
  have hmem : observed ∈ (inspectClaimRecords snapshot.records c.targetName o).exact := by
    have hid := (htold observed hobserved).identity hprint hwanted hidentity
    refine mem_filter.2 ⟨mem_filter.2 ⟨hobserved, ?_⟩, ?_⟩
    · rw [hid, hrecord]
      exact beq_self_eq_true _
    · rw [hprint]
      exact beq_self_eq_true _
  have hnil : rest = [] := by
    rw [hexact, length_cons] at hone
    exact eq_nil_of_length_eq_zero (by omega)
  rw [hexact, hnil, mem_singleton] at hmem
  exact hmem.symm

/-- **`ReconcileClaim`** of a reserved claim. -/
theorem reconcileClaim_recovers (ho : Seen o s.state.store) (hk : lastSnapshot s.history = some snapshot)
    (hshows : Shows c operation snapshot) (hentitled : Entitled c operation o)
    (hreserved : o.status.phase = .reserved)
    (htold : ∀ row ∈ snapshot.records, NoCollision c.targetName row operation.desired)
    (hobserved : observed ∈ snapshot.records) (hid : observed.providerID = operation.current.providerID)
    (hprint : fingerprint c.targetName observed = fingerprint c.targetName operation.desired) :
    Safe (recoveryContract c operation)
      (Manager.reconcileClaim name o.resourceVersion c.targetName snapshot).run (Ensures fun _ _ => True) s := by
  have hwanted : fingerprint c.targetName operation.desired = .ok o.spec.fingerprint := by
    rcases hentitled.phase with ⟨hconfirmed, -⟩ | ⟨-, hwanted, -⟩
    · rw [hreserved] at hconfirmed
      cases hconfirmed
    · exact hwanted
  obtain ⟨identity, -, hidentity, -, hrecord⟩ := hentitled.record
  have hfail : ∀ t : Logged Call Answer World, Safe (recoveryContract c operation)
      (Manager.failConflict o snapshot.revision).run (Ensures fun _ _ => True) t := by
    intro t
    unfold Manager.failConflict
    exact safe_seq (calm_ensures calm_marking.calls_markConflict) fun _ _ _ => safe_throw
  unfold Manager.reconcileClaim
  split
  · exact safe_throw
  refine safe_seq (calm_safe calm_marking.calls_revalidateUnique hk (revalidate_seen ho)) fun found t hfound => ?_
  obtain ⟨⟨rfl, hseen⟩, hk⟩ := hfound
  dsimp only
  split
  · exact hfail t
  rename_i hone
  split
  · exact safe_pure (stable_const True) trivial
  · rename_i row rest hexact
    split
    · exact hfail t
    split
    · exact hfail t
    have hrow : row = observed := reconciled_row htold hobserved (hprint.trans hwanted) hwanted hidentity hrecord
      (not_or.1 (not_or.1 hone).2).1 hexact
    rw [hrow, hid]
    exact confirm_recovers hseen hk hshows hentitled hreserved

/-- The row that `exactProviderRecord` returns. -/
theorem exactProviderRecord_ok {records : List Endpoint} {id : String} {desired : Endpoint}
    (h : SharedClient.exactProviderRecord records id targetName desired = .ok observed) :
    observed ∈ records ∧ observed.providerID = id ∧ ∃ print, fingerprint targetName observed = .ok print ∧
      fingerprint targetName desired = .ok print := by
  unfold SharedClient.exactProviderRecord at h
  cases hwanted : fingerprint targetName desired with
  | error err =>
    rw [hwanted] at h
    cases h
  | ok print =>
    rw [hwanted] at h
    dsimp only at h
    split at h
    · rename_i record hfilter
      obtain rfl := Except.ok.inj h
      have hmem := mem_filter.1 (hfilter ▸ mem_singleton_self record)
      obtain ⟨hrecord, hid⟩ := mem_filter.1 hmem.1
      exact ⟨hrecord, eq_of_beq hid, print, eq_of_beq hmem.2, rfl⟩
    · cases h

/-- What the checks of the claim establish. -/
theorem entitled_of_recoverable {identity : Identity}
    (hcurrent : identityFor c.targetName operation.current = .ok identity)
    (hdesired : identityFor c.targetName operation.desired = .ok identity) (hname : o.name = claimName identity)
    (h : c.recoverableClaim operation identity o = true) : Entitled c operation o := by
  unfold SharedClient.recoverableClaim at h
  simp only [Bool.and_eq_true, beq_iff_eq, Bool.not_eq_true'] at h
  obtain ⟨⟨⟨⟨⟨⟨hns, halive⟩, htarget⟩, hctrl⟩, hrecord⟩, hphase⟩, hsource⟩ := h
  obtain ⟨source, hmem, hsource⟩ := any_eq_true.1 hsource
  simp only [Bool.and_eq_true, bne_iff_ne, beq_iff_eq] at hsource
  obtain ⟨huid, rfl⟩ := hsource
  refine ⟨hns, htarget, hctrl, halive, ⟨identity, hcurrent, hdesired, hname, hrecord⟩, ⟨huid, hmem⟩, ?_⟩
  cases hp : o.status.phase with
  | confirmed =>
    rw [hp] at hphase
    exact .inl ⟨rfl, eq_of_beq hphase⟩
  | reserved =>
    rw [hp] at hphase
    obtain ⟨hmatch, hid⟩ := Bool.and_eq_true_iff.1 hphase
    have hprint := fingerprint_text hdesired
    unfold claimMatches at hmatch
    rw [hdesired, hprint] at hmatch
    simp only [Bool.and_eq_true, beq_iff_eq] at hmatch
    refine .inr ⟨rfl, by rw [hprint, hmatch.2], ?_⟩
    simpa only [Bool.or_eq_true, beq_iff_eq] using hid
  | none =>
    rw [hp] at hphase
    cases hphase
  | orphaned =>
    rw [hp] at hphase
    cases hphase
  | conflict =>
    rw [hp] at hphase
    cases hphase

/-- **The end of a recovery**, with the row that was observed. -/
theorem completeClaim_recovers (ho : Seen o s.state.store) (hk : lastSnapshot s.history = some snapshot)
    (hshows : Shows c operation snapshot) (hentitled : Entitled c operation o)
    (htold : ∀ row ∈ snapshot.records, NoCollision c.targetName row operation.desired)
    (hobserved : observed ∈ snapshot.records) (hid : observed.providerID = operation.current.providerID)
    (hprint : fingerprint c.targetName observed = fingerprint c.targetName operation.desired) :
    Safe (recoveryContract c operation) (c.completeClaim operation o snapshot observed).run
      (Ensures fun _ _ => True) s := by
  have hend : ∀ (u : Unit) (t : Logged Call Answer World),
      Safe (recoveryContract c operation) (pure u : Action Unit).run (Ensures fun _ _ => True) t :=
    fun _ _ => safe_pure (stable_const True) trivial
  unfold SharedClient.completeClaim
  refine safe_then_call ((seen_logged o).and taken_stable) ⟨ho, hk⟩ fun u hu revoked u' hexec => ?_
  have hsame : u'.state = u.state := hexec.1
  have hseen : Seen o u'.state.store := by
    rw [hsame]
    exact hu.1
  have hk' : lastSnapshot u'.history = some snapshot := by
    rw [hexec.2, lastSnapshot_calm rfl]
    exact hu.2
  refine ⟨calm_event trivial hexec.1, ?_⟩
  split
  · exact safe_throw
  split
  · rename_i hreserved
    exact safe_seq (reconcileClaim_recovers hseen hk' hshows hentitled hreserved htold hobserved hid hprint)
      fun _ t _ => hend () t
  · split
    · exact hend () _
    split
    · exact hend () _
    exact safe_seq (rebind_recovers hseen hk' hshows hentitled hprint) fun _ t _ => hend () t

/-- **A recovery keeps its contract.** -/
theorem recoverInterruptedClaim_safe :
    Safe (recoveryContract c operation) (c.recoverInterruptedClaim operation).run
      (Ensures fun _ _ => True) s := by
  have hend : ∀ (t : Logged Call Answer World),
      Safe (recoveryContract c operation) (pure () : Action Unit).run (Ensures fun _ _ => True) t :=
    fun _ => safe_pure (stable_const True) trivial
  unfold SharedClient.recoverInterruptedClaim
  split
  · exact hend s
  split
  · rename_i currentIdentity desiredIdentity hcurrent hdesired
    split
    · exact hend s
    rename_i hsame
    obtain rfl := not_not.1 hsame
    -- the claim is read
    refine safe_seq (P := fun o t => Seen o t.state.store ∧ o.name = claimName desiredIdentity) ?_
      fun o t ho => ?_
    · refine safe_then_call (stable_const True) trivial fun u _ r u' hexec => ⟨calm_event trivial hexec.1, ?_⟩
      cases r with
      | error err => cases err <;> exact safe_throw
      | ok o =>
        have hget : u.state.store.get (claimName desiredIdentity) = .ok o := by
          rcases hexec.1.2 with hr | hr
          · exact hr.symm
          · cases hr
        refine safe_pure ((seen_logged o).and (stable_const _)) ⟨?_, (get_ok hget).2⟩
        rw [hexec.1.1]
        exact seen_of_mem (get_ok hget).1
    obtain ⟨hseen, hname⟩ := ho
    split
    · exact hend t
    rename_i hrecoverable
    have hentitled : Entitled c operation o :=
      entitled_of_recoverable hcurrent hdesired hname (by simpa using hrecoverable)
    -- the snapshot is taken
    refine safe_seq (P := fun snapshot t => Seen o t.state.store ∧ lastSnapshot t.history = some snapshot ∧
      ∀ row ∈ snapshot.records, NoCollision c.targetName row operation.desired) ?_ fun snapshot t hsnapshot => ?_
    · refine safe_then_call (seen_logged o) hseen fun u hu r u' hexec => ⟨?_, ?_⟩
      · intro n hn
        have hstore : u'.state = u.state := hexec.1.1
        rw [hstore] at hn
        exact kept_event hn
      · cases r with
        | error err => exact safe_throw
        | ok snapshot =>
          refine safe_pure ((seen_logged o).and (taken_stable.and (stable_const _)))
            ⟨?_, ?_, hexec.1.2 snapshot rfl⟩
          · have hstore : u'.state = u.state := hexec.1.1
            rw [hstore]
            exact hu
          · rw [hexec.2, lastSnapshot_append]
            rfl
    obtain ⟨hseen, hk, htold⟩ := hsnapshot
    split
    · exact hend t
    rename_i hstable
    split
    · exact hend t
    rename_i hlength
    split
    · exact hend t
    rename_i observed hobserved
    obtain ⟨hmem, hid, print, hprint, hwanted⟩ := exactProviderRecord_ok hobserved
    have hshows : Shows c operation snapshot := by
      obtain ⟨hunstable, hrevision⟩ := not_or.1 hstable
      refine ⟨⟨by simpa using hunstable, hrevision⟩, observed, print, ?_, hprint, hwanted⟩
      obtain ⟨row, hrow⟩ := length_eq_one_iff.1 (not_not.1 hlength)
      have hin : observed ∈ SharedClient.providerRowsByID snapshot.records operation.current.providerID :=
        mem_filter.2 ⟨hmem, beq_iff_eq.2 hid⟩
      rw [hrow, mem_singleton] at hin
      rw [hin]
      exact hrow
    exact completeClaim_recovers hseen hk hshows hentitled htold hmem hid (hprint.trans hwanted.symm)
  · exact hend s

/-- A request that changes the provider. -/
def ProviderWrite : Call → Prop
  | .post _ _ | .apply _ => True
  | _ => False

theorem unwriting_managing : Managing fun e => ¬ ProviderWrite e where
  get _ := id
  list := id
  now := id
  conflict _ _ := id
  update _ := id
  delete _ _ := id
  snapshot := id
  canceled := id
  revoked := id
  settle _ _ := id

/-- **Interrupted claims are completed, and rows are not adopted.** In every run of `recoverInterruptedClaim`
under any interference no request changes the provider; and a write of it that confirms a claim or changes
its binding or fingerprint replaces the version of a claim that the client may complete for this operation,
on a stable snapshot with exactly one row under the provider ID, which is the desired record, and leaves the
claim with that ID and that fingerprint. -/
theorem recovery_never_adopts {τ pre post : History} {q : Prog Call Answer _} {ev : Event Call Answer World}
    (hrun : Run (exec (Told c operation)) Interference (c.recoverInterruptedClaim operation).run w τ q w')
    (hτ : τ = pre ++ ev :: post) :
    ¬ ProviderWrite ev.call ∧ ∀ n ∈ ev.after.store.objects, ∃ o ∈ ev.before.store.objects, o.uid = n.uid ∧
      (Advances o n → ∃ snapshot, lastSnapshot pre = some snapshot ∧ Shows c operation snapshot ∧
        Entitled c operation o ∧ Completed c operation n) := by
  have hwrites : Safe (logged (exec (Told c operation)) Interference fun _ ev => ¬ ProviderWrite ev.call)
      (c.recoverInterruptedClaim operation).run (fun _ _ => True) ⟨w, []⟩ :=
    safe_calls unwriting_managing.calls_recoverInterruptedClaim (fun _ _ _ _ he _ => he) _
  have hevent : RecoveryEvent c operation ([] ++ pre) ev :=
    run_events recoverInterruptedClaim_safe hrun pre ev post hτ
  exact ⟨run_events hwrites hrun pre ev post hτ, hevent⟩

/-- The row `5` was created for this object, and the controller stopped before it confirmed the claim. -/
def lostCreate : Operation where
  type := .conflict
  desired := { claimedRecord with source := ⟨"v1", "Service", "apps", "web", "uid-1"⟩ }
  current := { claimedRecord with providerID := "5" }

/-- Reserved, with the row not yet bound. -/
def lostClaim : Claim :=
  { boundClaim with
    spec := { boundClaim.spec with providerID := "", sources := [lostCreate.desired.source] }
    status := { phase := .reserved } }

/-- The row of a create that was not confirmed. -/
def lostWorld : World where
  store := ⟨[lostClaim], 2, Nat.two_pos, by simp, by simp, by simp, by simp [lostClaim, boundClaim],
    by simp [lostClaim, boundClaim]⟩
  rows := []

/-- A device that shows the row, and a store that never fails. -/
def serveLost : (e : Call) → World → Answer e × World
  | .snapshot, w => (.ok ⟨"stable", true, [lostCreate.current]⟩, w)
  | e, w => serve e w

theorem serveLost_exec (e : Call) (w : World) :
    exec (Told blueClient lostCreate) e w (serveLost e w).1 (serveLost e w).2 := by
  cases e with
  | snapshot =>
    refine ⟨rfl, fun snapshot h row hrow i j hi hj _ => ?_⟩
    obtain rfl := Except.ok.inj h
    obtain rfl := mem_singleton.1 hrow
    -- the row has the identity, the TTL and the status of the desired record
    have hsame : identityFor blueClient.targetName lostCreate.current =
        identityFor blueClient.targetName lostCreate.desired := by decide +kernel
    rw [Except.ok.inj (hi.symm.trans (hsame.trans hj))]
    rfl
  | get name => exact serve_exec (.get name) w
  | list => exact serve_exec .list w
  | create draft => exact serve_exec (.create draft) w
  | update claim => exact serve_exec (.update claim) w
  | updateStatus claim => exact serve_exec (.updateStatus claim) w
  | delete name version => exact serve_exec (.delete name version) w
  | now => exact serve_exec .now w
  | post endpoint origin => exact serve_exec (.post endpoint origin) w
  | apply operation => exact serve_exec (.apply operation) w
  | canceled => exact serve_exec .canceled w
  | revoked => exact serve_exec .revoked w

/-- The recovery of that create. -/
def lostRun : History := (runWith serveLost (blueClient.recoverInterruptedClaim lostCreate).run lostWorld).1

/-- The event confirms the only claim there is. -/
def confirmsClaim (ev : Event Call Answer World) : Bool :=
  ev.after.store.objects.any (fun n => n.status.phase == .confirmed) &&
    ev.before.store.objects.all fun o => o.status.phase != .confirmed

theorem recovery_never_adopts_lost :
    ∃ pre ev post, lostRun = pre ++ ev :: post ∧ ¬ ProviderWrite ev.call ∧
      ∃ o n snapshot, o ∈ ev.before.store.objects ∧ n ∈ ev.after.store.objects ∧ n.status.phase = .confirmed ∧
        lastSnapshot pre = some snapshot ∧ Shows blueClient lostCreate snapshot ∧
          Entitled blueClient lostCreate o ∧
        Completed blueClient lostCreate n := by
  have hsome : (lostRun.find? confirmsClaim).isSome = true := by decide +kernel
  obtain ⟨ev, hev⟩ := Option.isSome_iff_exists.1 hsome
  obtain ⟨post, hτ⟩ := split_first hev
  have hrun : Run (exec (Told blueClient lostCreate)) Interference
      (blueClient.recoverInterruptedClaim lostCreate).run lostWorld lostRun _ _ := runWith_run serveLost_exec _ _
  obtain ⟨hwrite, hclaims⟩ := recovery_never_adopts hrun hτ
  have hconfirms : confirmsClaim ev = true := find?_some hev
  obtain ⟨hany, hall⟩ := Bool.and_eq_true_iff.1 hconfirms
  obtain ⟨n, hn, hphase⟩ := any_eq_true.1 hany
  obtain ⟨o, ho, -, hbacked⟩ := hclaims n hn
  have hnot : o.status.phase ≠ .confirmed := by simpa using all_eq_true.1 hall o ho
  obtain ⟨snapshot, htaken, hshows, hentitled, hdone⟩ := hbacked (.inl ⟨eq_of_beq hphase, hnot⟩)
  exact ⟨_, ev, post, hτ, hwrite, o, n, snapshot, ho, hn, eq_of_beq hphase, htaken, hshows, hentitled, hdone⟩

end FortigateDns
