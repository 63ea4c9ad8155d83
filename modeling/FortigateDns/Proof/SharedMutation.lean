import FortigateDns.Proof.Authorization
import FortigateDns.Proof.ClaimWrites
import FortigateDns.Proof.CleanupScope

/-!
# What authorizes a mutation in a shared zone

Over every run of the shared client, whatever others write between its calls: a request to
change an existing row is sent only after the claim of its record was read twice with the same
content, was found confirmed, and was compared with the one row that has the ID it is bound to.
Two comparisons are missing. Nothing compares that ID with the ID of the row the request goes
to, and nothing compares the claim with what the plan has recorded.
-/

namespace FortigateDns

open Go Conc Store Option

variable {operation : Operation} {claim : Claim} {row : Endpoint} {S : World → Snapshot → Prop}
variable {q : Prog Call Answer _} {pre post : History} {ev : Event Call Answer World} {identity : Identity}
variable {reads : List Claim} {revision name : String} {names : List String} {operations : List Operation}
variable {recorded : List Manager.OwnershipPrecondition}

/-- A call that is no request to change an existing row. -/
def Harmless : Call → Prop
  | .apply _ => False
  | _ => True

theorem harmless : Storing Harmless where
  get _ := trivial
  list := trivial
  now := trivial
  create _ := trivial
  update _ := trivial
  updateStatus _ _ := trivial

theorem harmless_managing : Managing Harmless where
  get _ := trivial
  list := trivial
  now := trivial
  conflict _ _ := trivial
  update _ := trivial
  delete _ _ := trivial
  snapshot := trivial
  canceled := trivial
  revoked := trivial
  settle _ _ := trivial

theorem calls_reconcileCreate {request : Repository.ReserveRequest} :
    (Manager.reconcileCreate request).run.Calls Harmless := by
  refine calls_seq (harmless.calls_reserve trivial) fun c => calls_seq (calls_validSnapshot trivial)
    fun snapshot => ?_
  refine calls_seq harmless_managing.calls_confirmObserved fun result => ?_
  cases result with
  | some n => exact calls_pure
  | none =>
    dsimp only
    split
    · exact calls_throw
    refine calls_seq (calls_checked _) fun identity => calls_seq (calls_call trivial) fun created => ?_
    exact harmless_managing.calls_confirmCreated

theorem calls_listRecords {c : SharedClient} : c.listRecordsWithRevision.run.Calls Harmless :=
  calls_seq harmless_managing.calls_providerSnapshot fun _ =>
    calls_seq (calls_seq harmless.marking.calls_list fun _ => calls_pure) fun _ => calls_pure

/-- Requests are for operations of the plan that change a row, and are authorized. -/
def AuthorizedEvent (c : SharedClient) (operations : List Operation) (h : History)
    (ev : Event Call Answer World) :
    Prop :=
  ∀ operation, ev.call = .apply operation → operation ∈ operations ∧ operation.type.mutatesRow = true ∧
    ∃ claim snapshot row, Authorized c operation h claim claim snapshot row

/-- The contract of the client, with any interference and any snapshots. -/
def mutationContract (c : SharedClient) (operations : List Operation) :
    Contract Call Answer (Logged Call Answer World) :=
  logged (exec fun _ _ => True) Interference (AuthorizedEvent c operations)

variable {c : SharedClient} {plan : List Operation} {α : Type} {s : Logged Call Answer World}

theorem permits_harmless : Permits (fun _ _ => True) (AuthorizedEvent c plan) Harmless := by
  intro e h w r w' he _ operation hcall
  have hcall : e = .apply operation := hcall
  subst hcall
  exact absurd he id

theorem harmless_safe {p : Prog Call Answer α} (hp : p.Calls Harmless) (s : Logged Call Answer World) :
    Safe (mutationContract c plan) p (fun _ _ => True) s := permits_harmless.safe hp s

theorem harmless_ensures {x : Action α} (hx : x.run.Calls Harmless) (s : Logged Call Answer World) :
    Safe (mutationContract c plan) x.run (Ensures fun _ _ => True) s := permits_harmless.ensures hx s

theorem history_stable (P : History → Prop) :
    (mutationContract c plan).Stable fun s => P s.history := history_logged P

/-- One call that is no request, with what is known of the history before it. -/
theorem harmless_then {e : Call} {f : Answer e → Action α} {P : Logged Call Answer World → Prop}
    {Q : α → Logged Call Answer World → Prop} (he : Harmless e) (hP : (mutationContract c plan).Stable P)
    (hs : P s) (h : ∀ s' r w, P s' → exec (fun _ _ => True) e s'.state r w →
      Safe (mutationContract c plan) (f r).run (Ensures Q) ⟨w, s'.history ++ [⟨e, s'.state, r, w⟩]⟩) :
    Safe (mutationContract c plan) (Act.call e >>= f).run (Ensures Q) s := permits_harmless.call_then he hP hs h

theorem checked_ok {β : Type} {a : α} {f : α → Action β}
    {Q : Except OwnershipError β → Logged Call Answer World → Prop}
    (h : Safe (mutationContract c plan) (f a).run Q s) :
    Safe (mutationContract c plan) (checked (.ok a) >>= f).run Q s := h

theorem applyExisting_authorized (hop : operation ∈ plan) (hrow : operation.type.mutatesRow = true) :
    Safe (mutationContract c plan) (c.applyExisting operation).run (Ensures fun _ _ => True) s := by
  refine permits_harmless.applyExisting harmless_managing.toChecking
    (fun h w r w' first snapshot row ha _ operation' hcall => ?_) fun first t _ => ?_
  · obtain rfl := Call.apply.inj hcall
    exact ⟨hop, hrow, first, snapshot, row, ha⟩
  · exact harmless_ensures harmless_managing.calls_settleExisting t

theorem applyOne_authorized (hop : operation ∈ plan) :
    Safe (mutationContract c plan) (c.applyOne operation).run (Ensures fun _ _ => True) s := by
  unfold SharedClient.applyOne
  split
  · dsimp only
    split
    · exact safe_throw
    · exact harmless_ensures (calls_seq calls_reconcileCreate fun _ => calls_pure) s
  · exact safe_throw
  all_goals rename_i htype
  · exact applyExisting_authorized hop (by rw [htype]; rfl)
  · exact applyExisting_authorized hop (by rw [htype]; rfl)
  · exact applyExisting_authorized hop (by rw [htype]; rfl)
  · exact harmless_ensures calls_pure s

/-- The loop, one operation after the other. -/
theorem applyLoop_authorized {operationID : Operation → String} (operations : List Operation)
    (hops : ∀ operation ∈ operations, operation ∈ plan) (st : SharedClient.LoopState) :
    Safe (mutationContract c plan) (c.applyLoop operationID operations st).run (Ensures fun _ _ => True) s := by
  induction operations generalizing st s with
  | nil => exact harmless_ensures calls_pure s
  | cons operation rest ih =>
    obtain ⟨hop, hrest⟩ := List.forall_mem_cons.1 hops
    unfold SharedClient.applyLoop
    refine harmless_then trivial (stable_const True) trivial fun s' canceled w _ _ => ?_
    split
    · exact harmless_ensures calls_pure _
    refine harmless_then trivial (stable_const True) trivial fun s' revoked w _ _ => ?_
    split
    · exact harmless_ensures calls_pure _
    split
    · exact safe_attempt_then (harmless_safe harmless_managing.calls_recoverInterruptedClaim _)
        fun _ _ => ih hrest _
    split
    · exact ih hrest _
    · exact safe_attempt_then (safe_mono (fun _ _ _ => trivial) (applyOne_authorized hop)) fun _ _ => ih hrest _

/-- The client keeps the contract `mutationContract`. -/
theorem applyWithResults_authorized {operationID : Operation → String} {dryRun : Bool} :
    Safe (mutationContract c plan) (c.applyWithResults operationID plan dryRun).run
      (Ensures fun _ _ => True) s := by
  have hdry : ∀ ops : List Operation, (SharedClient.dryRunApply ops).run.Calls Harmless := by
    intro ops
    induction ops with
    | nil => exact calls_pure
    | cons op rest ih =>
      refine calls_seq (calls_call trivial) fun canceled => ?_
      split
      · exact calls_throw
      · exact ih
  unfold SharedClient.applyWithResults
  split
  · exact harmless_ensures (calls_seq (calls_attempt (hdry _)) fun _ => calls_pure) s
  · exact safe_seq (applyLoop_authorized _ (fun _ h => h) _) fun _ t _ => harmless_ensures calls_pure t

/-- The name of the client's target in claims. -/
def SharedClient.targetRef (c : SharedClient) : String := toLower (trimSpace c.targetName)

/-- The claim is this client's and is bound to the row with the ID. -/
structure OwnRow (c : SharedClient) (claim : Claim) (id : String) : Prop where
  target : claim.spec.targetRef = c.targetRef
  controller : claim.spec.controllerID = c.controller
  bound : trimSpace claim.spec.providerID = id

/-- A confirmed claim of this client covers the only row with the ID. -/
structure Covers (c : SharedClient) (snapshot : Snapshot) (claim : Claim) (id : String) : Prop extends
    OwnRow c claim id where
  phase : claim.status.phase = .confirmed
  row : ∃ row, snapshot.records.filter (fun r => rowID r = id) = [row] ∧
    fingerprint c.targetRef row = .ok claim.spec.fingerprint

theorem Authorized.covers {h : History} {snapshot : Snapshot} {id : String}
    (ha : Authorized c operation h claim claim snapshot row) (hown : OwnRow c claim id) :
    Covers c snapshot claim id := by
  refine ⟨hown, ha.phase, row, ?_, ?_⟩
  · rw [← ha.row_only]
    unfold providerRecordsByID rowID
    rw [hown.bound]
    simp only [beq_eq_decide]
  · rw [← hown.target]
    exact ha.row_print

variable {operationID : Operation → String} {w w' : World} {τ : History}

/-- A claim that was read was stored at that moment. -/
theorem read_stored {env : World → World → Prop} {p q : Prog Call Answer α} (hrun : Run (exec S) env p w τ q w')
    (hclaim : claim ∈ claimReads τ) : ∃ ev ∈ τ, claim ∈ ev.before.store.objects := by
  obtain ⟨ev, hev, hread⟩ := List.mem_filterMap.1 hclaim
  refine ⟨ev, hev, ?_⟩
  have hexec := run_exec hrun hev
  unfold readClaim at hread
  split at hread
  · obtain rfl := some.inj hread
    rcases hexec.2 with hget | hget
    · exact (get_ok hget.symm).1
    · cases hget
  · cases hread

/-- The first call has shown the rows, the second the claims, and `labelled` are the rows labelled by
the claims. -/
def Labels (c : SharedClient) (h : History) (labelled : List Endpoint) : Prop :=
  ∃ ev₀ ev₁, h = [ev₀, ev₁] ∧
    labelled = (ev₀.before.rows.map Row.record).map (c.bindRow ev₁.before.store.objects)

theorem listRecords_labels {w : World} :
    Safe (logged (exec Accurate) Interference fun _ _ => True) c.listRecordsWithRevision.run
      (Ensures fun listed t => Labels c t.history listed.1) ⟨w, []⟩ := by
  have hany : Permits Accurate (fun _ _ => True) fun _ => True := fun _ _ _ _ _ _ _ => trivial
  have hshown : ∀ snapshot, (logged (exec Accurate) Interference fun _ _ => True).Stable fun t =>
      ∃ ev₀, t.history = [ev₀] ∧ Accurate ev₀.before snapshot :=
    fun snapshot => history_logged fun h => ∃ ev₀, h = [ev₀] ∧ Accurate ev₀.before snapshot
  refine safe_seq (P := fun snapshot t => ∃ ev₀, t.history = [ev₀] ∧ Accurate ev₀.before snapshot) ?_
    fun snapshot t hsnapshot => ?_
  · refine hany.call_then trivial (history_logged fun h => h = []) rfl fun s' r w hs hexec => ?_
    cases r with
    | error err => exact safe_throw
    | ok snapshot => exact safe_pure (hshown snapshot) ⟨⟨_, _, _, _⟩, by rw [hs]; rfl, hexec.2 snapshot rfl⟩
  obtain ⟨ev₀, hhistory, hrecords⟩ := hsnapshot
  refine safe_seq (P := fun records t => Labels c t.history records) ?_
    fun records t hrec => safe_pure (history_logged fun h => Labels c h records) hrec
  have hlisted : ∀ claims, (logged (exec Accurate) Interference fun _ _ => True).Stable fun t =>
      Labels c t.history (snapshot.records.map (c.bindRow claims)) :=
    fun claims => history_logged fun h => Labels c h (snapshot.records.map (c.bindRow claims))
  refine safe_seq (P := fun claims t => Labels c t.history (snapshot.records.map (c.bindRow claims))) ?_
    fun claims t hclaims => safe_pure (hlisted claims) hclaims
  refine hany.call_then trivial (history_logged fun h => h = [ev₀]) hhistory fun s' r w hs hexec => ?_
  cases r with
  | error err => cases err <;> exact safe_throw
  | ok claims =>
    have hclaims : claims = s'.state.store.objects := by
      rcases hexec.2 with h | h
      · exact Except.ok.inj h
      · cases h
    exact safe_pure (hlisted claims) ⟨ev₀, ⟨_, _, _, _⟩, by rw [hs]; rfl, by rw [hrecords, hclaims]⟩

theorem lastSnapshot_of_last {h h' : History} {snapshot : Snapshot} (hlast : lastSnapshot h' = some snapshot) :
    lastSnapshot (h ++ h') = some snapshot := by
  unfold lastSnapshot at hlast ⊢
  rw [List.filterMap_append, List.getLast?_append, hlast, some_or]

/-- **A request comes after the listing**: a cycle that sends one has listed and labelled the rows with its first
two calls, and what follows is an execution of the plan. -/
theorem request_of_cycle {plan : List Endpoint → List Operation}
    (hrun : Run (exec Accurate) Interference (c.cycle operationID plan).run w τ q w') (hτ : τ = pre ++ ev :: post)
    (hcall : ev.call = .apply operation) :
    ∃ ev₀ ev₁ pre' q' u, pre = ev₀ :: ev₁ :: pre' ∧ Run (exec Accurate) Interference
      (c.applyWithResults operationID (plan ((ev₀.before.rows.map Row.record).map
        (c.bindRow ev₁.before.store.objects))) false).run u (pre' ++ ev :: post) q' w' := by
  -- the listing sends no request
  have hlist : ∀ {τ₁ : History} {q₁ : Prog Call Answer _} {u : World},
      Run (exec Accurate) Interference c.listRecordsWithRevision.run w τ₁ q₁ u → ev ∉ τ₁ := by
    intro τ₁ q₁ u hrun₁ hev
    have hharmless := run_calls calls_listRecords hrun₁ ev hev
    rw [hcall] at hharmless
    exact hharmless
  rcases run_bind_partial hrun with ⟨q₁, hrun₁⟩ | ⟨τ₁, τ₂, listed, u, hsplit, hrun₁, hrun₂⟩
  · exact absurd (by rw [hτ]; simp) (hlist hrun₁)
  rw [hτ] at hsplit
  obtain ⟨pre', rfl, rfl⟩ : ∃ pre', pre = τ₁ ++ pre' ∧ τ₂ = pre' ++ ev :: post := by
    rcases List.append_eq_append_iff.1 hsplit with ⟨l, rfl, hl⟩ | ⟨l, rfl, rfl⟩
    · cases l with
      | nil => exact ⟨[], by simp, by simpa using hl.symm⟩
      | cons first l =>
        obtain ⟨rfl, -⟩ := List.cons.inj hl
        exact absurd (by simp) (hlist hrun₁)
    · exact ⟨l, rfl, rfl⟩
  cases listed with
  | error err =>
    have hmem : ev ∈ pre' ++ ev :: post := by simp
    exact absurd (run_calls (P := fun _ => False) calls_throw hrun₂ ev hmem) id
  | ok listed =>
    obtain ⟨ev₀, ev₁, rfl, hrows⟩ := run_result listRecords_labels hrun₁
    exact ⟨ev₀, ev₁, pre', q, u, rfl, by rw [← hrows]; exact hrun₂⟩

/-- A row as the provider lists it: in normal form, and without an owner. -/
structure Unlabelled (row : Endpoint) : Prop where
  normal : row.normalize = row
  owner : trimSpace row.ownerID = ""

theorem claimMatches_identity {targetName : String} {endpoint : Endpoint}
    (hidentity : identityFor targetName endpoint = .ok identity)
    (h : claimMatches claim targetName endpoint = true) :
    claim.name = claimName identity ∧ claim.spec.targetRef = identity.targetName := by
  unfold claimMatches at h
  rw [hidentity] at h
  split at h
  · rename_i identity' print hok _
    obtain rfl := Except.ok.inj hok
    simp only [Bool.and_eq_true, beq_iff_eq] at h
    exact ⟨h.1.1.1, h.1.1.2⟩
  · cases h

/-- A row is left as it is, or labelled by the confirmed claim that its identity names. -/
theorem bindRow_cases (claims : List Claim) (row : Endpoint) :
    c.bindRow claims row = row ∨ ∃ identity, ∃ claim ∈ claims, identityFor c.targetName row = .ok identity ∧
      claim.status.phase = .confirmed ∧ claim.spec.controllerID = c.controller ∧
      claimMatches claim c.targetName row = true ∧ c.bindRow claims row = c.labelRow claim row := by
  unfold SharedClient.bindRow
  split
  · exact .inl rfl
  rename_i identity hidentity
  split
  · exact .inl rfl
  rename_i claim hclaim
  split
  · rename_i hcond
    have hmem : claim ∈ claims := List.mem_reverse.1 (List.mem_of_find?_eq_some hclaim)
    exact .inr ⟨identity, claim, hmem, hidentity, hcond.1, hcond.2.1, hcond.2.2, rfl⟩
  · exact .inl rfl

theorem labelRow_normal (hrow : row.normalize = row) :
    (c.labelRow claim row).normalize = c.labelRow claim row := by
  have hnormalize : (c.labelRow claim row).normalize = c.labelRow claim row.normalize := by
    simp only [Endpoint.normalize, SharedClient.labelRow]
    rfl
  rw [hnormalize, hrow]

theorem labelRow_identity {targetName : String} :
    identityFor targetName (c.labelRow claim row) = identityFor targetName row := by
  simp only [identityFor, SharedClient.labelRow, Endpoint.normalize]
  rfl

/-- **A row that is labelled as owned** has the content of a confirmed claim of this controller, and the
name of that claim is the one of the labelled row. -/
theorem claim_of_owned {claims : List Claim} (hrow : Unlabelled row) (hcontroller : trimSpace c.controller ≠ "")
    (howned : ownedBy (c.bindRow claims row).normalize c.controller = true) :
    ∃ claim ∈ claims, claim.status.phase = .confirmed ∧ claim.spec.controllerID = c.controller ∧
      claimMatches claim c.targetName row = true ∧ claim.spec.targetRef = c.targetRef ∧
      rowID (c.bindRow claims row).normalize = rowID row ∧
      ∀ identity, identityFor c.targetName (c.bindRow claims row).normalize = .ok identity →
        claim.name = claimName identity := by
  rcases @bindRow_cases c claims row with
    hsame | ⟨identity, claim, hmem, hidentity, hphase, hcontrol, hmatch, hlabel⟩
  · rw [hsame, ownedBy, hrow.normal, hrow.owner, beq_iff_eq] at howned
    exact absurd howned.symm hcontroller
  rw [hlabel, labelRow_normal hrow.normal]
  obtain ⟨hname, htarget⟩ := claimMatches_identity hidentity hmatch
  refine ⟨claim, hmem, hphase, hcontrol, hmatch, htarget.trans (identityFor_targetName hidentity), rfl, ?_⟩
  intro identity' hidentity'
  rw [labelRow_identity, hidentity] at hidentity'
  rw [← Except.ok.inj hidentity']
  exact hname

/-- The rows with the content of this controller's claims are those the claims are bound to, and the claims stay
bound: `w` is an earlier state of a run and `w'` a later one. -/
structure BoundRows (c : SharedClient) (w w' : World) : Prop where
  rows : ∀ row ∈ w.rows, ∀ claim ∈ w'.store.objects, claim.status.phase = .confirmed →
    claim.spec.controllerID = c.controller → claimMatches claim c.targetName row.record = true →
    rowID row.record = trimSpace claim.spec.providerID
  claims : ∀ claim ∈ w.store.objects, claim.status.phase = .confirmed → claim.spec.controllerID = c.controller →
    ∀ later ∈ w'.store.objects, later.name = claim.name → later.spec.targetRef = claim.spec.targetRef ∧
      later.spec.controllerID = claim.spec.controllerID ∧
      trimSpace later.spec.providerID = trimSpace claim.spec.providerID

/-- **The row a request goes to.** In a cycle of the client under any interference, take any request. If
in the states before it the rows with the content of this controller's confirmed claims were those the
claims are bound to, and the claims stayed bound, then the claim that authorized the request covers the
row the request goes to. -/
theorem shared_mutation_covered (rt : Runtime) (desired : List Endpoint) (cleanup : CleanupPolicy)
    (cleanupAllowed : Endpoint → Bool) (hcontroller : trimSpace c.controller ≠ "")
    (hrun : Run (exec Accurate) Interference (c.cycle operationID
      (buildWithCleanupScope rt desired · c.controller cleanup cleanupAllowed)).run w τ q w')
    (hτ : τ = pre ++ ev :: post) (hcall : ev.call = .apply operation)
    (hrows : ∀ e ∈ pre, ∀ row ∈ e.before.rows, Unlabelled row.record)
    (hstates : (pre.map Event.before).Pairwise (BoundRows c)) :
    ∃ earlier claim snapshot, claimReads pre = earlier ++ [claim, claim] ∧ lastSnapshot pre = some snapshot ∧
      Covers c snapshot claim (rowID operation.current) := by
  obtain ⟨ev₀, ev₁, pre', q', u, rfl, happly⟩ := request_of_cycle hrun hτ hcall
  set listed := (ev₀.before.rows.map Row.record).map (c.bindRow ev₁.before.store.objects)
  have hopen : Run (exec fun _ _ => True) Interference _ u (pre' ++ ev :: post) q' w' :=
    happly.mono (fun _ _ _ _ h => exec_mono (fun _ _ => trivial) h) fun _ _ h => h
  obtain ⟨hplanned, hmutates, claim, snapshot, row, ha⟩ :=
    run_events (h := []) applyWithResults_authorized hopen pre' ev post rfl operation hcall
  obtain ⟨earlier, hreads⟩ := ha.reads
  refine ⟨claimReads [ev₀, ev₁] ++ earlier, claim, snapshot, ?_, ?_, ha.covers ?_⟩
  · rw [List.append_assoc, ← hreads]
    exact List.filterMap_append (l := [ev₀, ev₁])
  · exact lastSnapshot_of_last (h := [ev₀, ev₁]) ha.taken
  -- the operation is about a row that was labelled at planning
  obtain ⟨hlisted, howned⟩ := (plan_admitted _ _ _ _ _ _ operation hplanned).row hmutates
  obtain ⟨_, hlabelled, hcurrent⟩ := List.mem_map.1 hlisted
  obtain ⟨_, hrecord, rfl⟩ := List.mem_map.1 hlabelled
  obtain ⟨tableRow, hrow, rfl⟩ := List.mem_map.1 hrecord
  rw [← hcurrent] at howned ⊢
  obtain ⟨label, hlabel, hphase, hcontrol, hmatch, htarget, hid, hname⟩ :=
    claim_of_owned (hrows ev₀ List.mem_cons_self tableRow hrow) hcontroller howned
  -- the claim of that label was bound to the row, and the claim that was read is still bound to it
  obtain ⟨identity, hidentity, hclaimName⟩ := ha.name
  rw [← hcurrent] at hidentity
  have hread : claim ∈ claimReads pre' := by
    rw [show claimReads pre' = _ from hreads]
    simp
  obtain ⟨ev₂, hev₂, hstored⟩ := read_stored (run_until happly).1.choose_spec hread
  obtain ⟨hfirst, hrest⟩ := List.pairwise_cons.1 hstates
  have hbound := (hfirst ev₁.before (by simp)).rows tableRow hrow label hlabel hphase hcontrol hmatch
  obtain ⟨hkeptTarget, hkeptControl, hkeptID⟩ :=
    ((List.pairwise_cons.1 hrest).1 ev₂.before (List.mem_map_of_mem hev₂)).claims label hlabel hphase
      hcontrol claim
      hstored (hclaimName.trans (hname identity hidentity).symm)
  exact ⟨hkeptTarget.trans htarget, hkeptControl.trans hcontrol, by rw [hkeptID, hid, hbound]⟩

/-- A record of the target `edge`. -/
def claimedRecord : Endpoint where
  dnsName := "app.example.com"
  recordType := "A"
  targets := ["192.0.2.1"]
  zone := "example.com"

/-- The confirmed claim of the record by `blue`, bound to the row `5`. -/
def boundClaim : Claim where
  name := claimName ⟨"edge", "example.com", "app.example.com", "A", "192.0.2.1"⟩
  objectNamespace := "dns"
  uid := 1
  resourceVersion := 1
  finalizers := [claimFinalizer]
  deleting := false
  spec :=
    { targetRef := "edge", providerID := "5", record := ⟨"app.example.com", "A", "192.0.2.1"⟩
      fingerprint := (fingerprint "edge" claimedRecord).toOption.getD "", controllerID := "blue" }
  status := { phase := .confirmed }

/-- The store with this claim, and rows with the record under the given IDs. -/
def claimedWorld (ids : List String) : World where
  store := ⟨[boundClaim], 2, Nat.two_pos, by simp, by simp, by simp, by simp [boundClaim], by simp [boundClaim]⟩
  rows := ids.map fun id => { record := { claimedRecord with providerID := id } }

/-- A controller `blue` of the target `edge`. -/
def blueClient : SharedClient := ⟨"dns", "edge", "blue"⟩

/-- The operation whose request an event is. -/
def requested (ev : Event Call Answer World) : Option Operation :=
  match ev.call with
  | .apply operation => some operation
  | _ => none

theorem call_of_requested (h : requested ev = some operation) : ev.call = .apply operation := by
  unfold requested at h
  split at h
  · rename_i op hcall
    rw [hcall, some.inj h]
  · simp at h

/-- The calls before the first request. -/
def beforeRequest (τ : History) : History := τ.takeWhile fun ev => (requested ev).isNone

/-- The first request. -/
def firstRequest (τ : History) : Option (Event Call Answer World) := τ.find? fun ev => (requested ev).isSome

theorem split_firstRequest {τ : History} (h : firstRequest τ = some ev) :
    ∃ post, τ = beforeRequest τ ++ ev :: post := by
  obtain ⟨post, hτ⟩ := split_first h
  refine ⟨post, ?_⟩
  simpa only [not_isSome, beforeRequest] using hτ

/-- A cycle of `blue` with one desired list. -/
def blueCycle (desired : List Endpoint) : Action (List OperationOutcome × List OwnershipError) :=
  blueClient.cycle (fun _ => "") (buildWithCleanupScope .plain desired · "blue" .delete fun _ => true)

/-- The calls of this cycle on a store and a device that never fail. -/
def blueRun (desired : List Endpoint) (ids : List String) : History :=
  (runWith serve (blueCycle desired).run (claimedWorld ids)).1

/-- What the first request is for, the provider IDs of the claims at that moment, and the claims
read before it. -/
def requestSummary (τ : History) : Option (OperationType × String × List String × List Claim) :=
  (firstRequest τ).bind fun ev => (requested ev).map fun operation =>
    (operation.type, rowID operation.current,
      ev.before.store.objects.map (fun claim => trimSpace claim.spec.providerID), claimReads (beforeRequest τ))

theorem request_of_summary {τ : History} {t : OperationType} {id : String} {bound : List String}
    (h : requestSummary τ = some (t, id, bound, reads)) :
    ∃ ev post operation, τ = beforeRequest τ ++ ev :: post ∧ ev.call = .apply operation ∧ operation.type = t ∧
      rowID operation.current = id ∧
      ev.before.store.objects.map (fun claim => trimSpace claim.spec.providerID) = bound ∧
      claimReads (beforeRequest τ) = reads := by
  unfold requestSummary at h
  cases hev : firstRequest τ with
  | none => simp [hev] at h
  | some ev =>
    rw [hev, bind_some] at h
    cases hop : requested ev with
    | none => simp [hop] at h
    | some operation =>
      simp only [hop, map_some, Option.some.injEq, Prod.mk.injEq] at h
      obtain ⟨rfl, rfl, rfl, rfl⟩ := h
      obtain ⟨post, hτ⟩ := split_firstRequest hev
      exact ⟨ev, post, operation, hτ, call_of_requested hop, rfl, rfl, rfl, rfl⟩

theorem blueRun_run (desired : List Endpoint) (ids : List String) :
    Run (exec Accurate) Interference (blueCycle desired).run (claimedWorld ids) (blueRun desired ids)
      (.ret (runWith serve (blueCycle desired).run (claimedWorld ids)).2.1)
      (runWith serve (blueCycle desired).run (claimedWorld ids)).2.2 := runWith_run serve_exec _ _

/-- The claim is the only one and its row the only row. -/
def Claimed (w : World) : Prop := w.store.objects = [boundClaim] ∧ w.rows = (claimedWorld ["5"]).rows

instance (w : World) : Decidable (Claimed w) := inferInstanceAs (Decidable (_ ∧ _))

theorem Claimed.boundRows {w w' : World} (h : Claimed w) (h' : Claimed w') : BoundRows blueClient w w' where
  rows row hrow claim hclaim _ _ _ := by
    rw [h.2] at hrow
    rw [h'.1] at hclaim
    obtain rfl := List.mem_singleton.1 hrow
    obtain rfl := List.mem_singleton.1 hclaim
    decide +kernel
  claims claim hclaim _ _ later hlater _ := by
    rw [h.1] at hclaim
    rw [h'.1] at hlater
    obtain rfl := List.mem_singleton.1 hclaim
    obtain rfl := List.mem_singleton.1 hlater
    exact ⟨rfl, rfl, rfl⟩

/-- The row of a claim that is no longer wanted is deleted, and is the row the claim covers. -/
theorem shared_mutation_covered_delete :
    ∃ pre ev post operation, blueRun [] ["5"] = pre ++ ev :: post ∧ ev.call = .apply operation ∧
      operation.type = .delete ∧ rowID operation.current = "5" ∧
      ∃ snapshot claim, lastSnapshot pre = some snapshot ∧ Covers blueClient snapshot claim "5" := by
  obtain ⟨hsummary, hstates⟩ :
      requestSummary (blueRun [] ["5"]) = some (.delete, "5", ["5"], [boundClaim, boundClaim]) ∧
        ∀ w ∈ (beforeRequest (blueRun [] ["5"])).map Event.before, Claimed w := by decide +kernel
  obtain ⟨ev, post, operation, hτ, hcall, htype, hid, -, -⟩ := request_of_summary hsummary
  have hrow : ∀ w, Claimed w → ∀ row ∈ w.rows, Unlabelled row.record := by
    intro w hw row hrow
    rw [hw.2] at hrow
    obtain rfl := List.mem_singleton.1 hrow
    exact ⟨by decide +kernel, by decide +kernel⟩
  obtain ⟨earlier, claim, snapshot, -, htaken, hcovers⟩ :=
    shared_mutation_covered (c := blueClient) .plain [] .delete (fun _ => true) (by decide)
      (blueRun_run _ _) hτ hcall
      (fun e he => hrow _ (hstates _ (List.mem_map_of_mem he)))
      (List.pairwise_of_forall_mem_list fun _ h _ h' => (hstates _ h).boundRows (hstates _ h'))
  exact ⟨_, ev, post, operation, hτ, hcall, htype, hid, snapshot, claim, htaken, hid ▸ hcovers⟩

/-- **A row that nobody claims is deleted**: a copy of a claimed row is labelled as owned, the plan
deletes it as a duplicate, and the claim of the other row authorizes the request. -/
theorem shared_mutation_copied_row :
    ∃ τ q w', Run (exec Accurate) Interference
        (blueCycle [{ claimedRecord with ownerID := "blue" }]).run (claimedWorld ["5", "7"]) τ q w' ∧
      ∃ pre ev post operation, τ = pre ++ ev :: post ∧ ev.call = .apply operation ∧ operation.type = .delete ∧
        rowID operation.current = "7" ∧ ∀ claim ∈ ev.before.store.objects,
          trimSpace claim.spec.providerID ≠ "7" := by
  refine ⟨_, _, _, blueRun_run _ _, ?_⟩
  have hsummary : requestSummary (blueRun [{ claimedRecord with ownerID := "blue" }] ["5", "7"]) =
      some (.delete, "7", ["5"], [boundClaim, boundClaim]) := by
    decide +kernel
  obtain ⟨ev, post, operation, hτ, hcall, htype, hid, hbound, -⟩ := request_of_summary hsummary
  refine ⟨_, ev, post, operation, hτ, hcall, htype, hid, fun claim hclaim heq => ?_⟩
  have hmem := List.mem_map_of_mem (f := fun claim : Claim => trimSpace claim.spec.providerID) hclaim
  rw [hbound, List.mem_singleton] at hmem
  rw [hmem] at heq
  simp at heq

/-- The preconditions are those of claims that were read, and there is one for each record to be changed
whose claim is not among `names`. -/
structure Records (c : SharedClient) (revision : String) (names : List String) (operations : List Operation)
    (reads : List Claim) (recorded : List Manager.OwnershipPrecondition) : Prop where
  sound : ∀ m ∈ recorded, ∃ claim ∈ reads, m = (Manager.preconditionForClaim .shared claim revision).ownership
  complete : ∀ operation ∈ operations, operation.type.mutatesRow = true → ∀ identity,
    identityFor c.targetName operation.current = .ok identity →
    claimName identity ∈ names ∨ ∃ m ∈ recorded, m.name = claimName identity

theorem records_stable {earlier : List Claim} (recorded : List Manager.OwnershipPrecondition) :
    (mutationContract c plan).Stable fun t => ∃ reads, claimReads t.history = earlier ++ reads ∧
      Records c revision names operations reads recorded :=
  history_stable fun h => ∃ reads, claimReads h = earlier ++ reads ∧
    Records c revision names operations reads recorded

/-- An operation for which nothing is read leaves the recorded preconditions as they are. -/
theorem Records.skip {rest : List Operation} (h : Records c revision names rest reads recorded)
    (hskip : operation.type.mutatesRow = true →
      ∀ identity, identityFor c.targetName operation.current = .ok identity →
      claimName identity ∈ names) : Records c revision names (operation :: rest) reads recorded := by
  refine ⟨h.sound, fun o ho hrow identity hid => ?_⟩
  rcases List.mem_cons.1 ho with rfl | ho
  · exact .inl (hskip hrow identity hid)
  · exact h.complete o ho hrow identity hid

/-- The claim of an operation is read and recorded. -/
theorem Records.cons {revision : String} {names : List String} {operation : Operation} {rest : List Operation}
    {reads : List Claim} {recorded : List Manager.OwnershipPrecondition} {identity : Identity} {claim : Claim}
    (hid : identityFor c.targetName operation.current = .ok identity) (hname : claim.name = claimName identity)
    (h : Records c revision (claimName identity :: names) rest reads recorded) :
    Records c revision names (operation :: rest) (claim :: reads)
      ((Manager.preconditionForClaim .shared claim revision).ownership :: recorded) := by
  refine ⟨fun m hm => ?_, fun o ho hrow identity' hid' => ?_⟩
  · rcases List.mem_cons.1 hm with rfl | hm
    · exact ⟨claim, List.mem_cons_self, rfl⟩
    · obtain ⟨read, hread, rfl⟩ := h.sound m hm
      exact ⟨read, List.mem_cons_of_mem _ hread, rfl⟩
  · by_cases hsame : claimName identity' = claimName identity
    · exact .inr ⟨_, List.mem_cons_self, hname.trans hsame.symm⟩
    · rcases List.mem_cons.1 ho with rfl | ho
      · rw [hid] at hid'
        exact absurd (by rw [Except.ok.inj hid']) hsame
      rcases h.complete o ho hrow identity' hid' with hseen | ⟨m, hm, hmname⟩
      · exact .inl ((List.mem_cons.1 hseen).resolve_left hsame)
      · exact .inr ⟨m, List.mem_cons_of_mem _ hm, hmname⟩

/-- The loop records the claims it reads. -/
theorem preconditionsOf_recorded (operations : List Operation) (names : List String) {earlier : List Claim}
    (hs : claimReads s.history = earlier) :
    Safe (mutationContract c plan) (c.preconditionsOf revision names operations).run
      (Ensures fun recorded t => ∃ reads, claimReads t.history = earlier ++ reads ∧
        Records c revision names operations reads recorded) s := by
  induction operations generalizing names earlier s with
  | nil => exact safe_pure (records_stable _) ⟨[], by rw [List.append_nil]; exact hs, by simp, by simp⟩
  | cons operation rest ih =>
    have hskip : ∀ {r : List Manager.OwnershipPrecondition} {t : Logged Call Answer World},
        (operation.type.mutatesRow = true →
          ∀ identity, identityFor c.targetName operation.current = .ok identity →
          claimName identity ∈ names) →
        (∃ reads, claimReads t.history = earlier ++ reads ∧ Records c revision names rest reads r) →
        ∃ reads, claimReads t.history = earlier ++ reads ∧ Records c revision names (operation :: rest) reads r :=
      fun hskip ⟨reads, hreads, hrec⟩ => ⟨reads, hreads, hrec.skip hskip⟩
    unfold SharedClient.preconditionsOf
    split
    · rename_i htype
      refine safe_mono (Ensures.mono fun r t => hskip fun hrow => ?_) (ih names hs)
      rcases htype with htype | htype <;> simp [htype, OperationType.mutatesRow] at hrow
    cases hid : identityFor c.targetName operation.current with
    | error err => exact safe_throw
    | ok identity =>
      refine checked_ok ?_
      dsimp only
      split
      · rename_i hseen
        refine safe_mono (Ensures.mono fun r t => hskip fun _ identity' hid' => ?_) (ih names hs)
        rw [hid] at hid'
        rw [← Except.ok.inj hid']
        simpa using hseen
      refine safe_seq (P := fun claim t => claimReads t.history = earlier ++ [claim] ∧
        claim.name = claimName identity) ?_
        fun claim t hclaim => ?_
      · refine harmless_then trivial (history_stable fun h => claimReads h = earlier) hs
          fun s' r w hs' hexec => ?_
        cases r with
        | error err => cases err <;> exact safe_throw
        | ok claim =>
          refine safe_pure (history_stable fun h => claimReads h = earlier ++ [claim] ∧ _) ⟨?_, ?_⟩
          · rw [claimReads_append, hs']
            rfl
          · rcases hexec.2 with hget | hget
            · exact (get_ok hget.symm).2
            · cases hget
      · refine safe_seq (ih _ hclaim.1) fun others u hothers => ?_
        obtain ⟨reads, hreads, hrec⟩ := hothers
        exact safe_pure (records_stable _)
          ⟨claim :: reads, by rw [hreads, List.append_assoc]; rfl, hrec.cons hid hclaim.2⟩

theorem planOwnershipPreconditions_recorded {w w' : World} {τ : History}
    (hrun : Run (exec fun _ _ => True) Interference (c.planOwnershipPreconditions operations revision).run w τ
      (.ret (.ok recorded)) w') : Records c revision [] operations (claimReads τ) recorded := by
  have hsafe : Safe (mutationContract c []) (c.planOwnershipPreconditions operations revision).run
      (Ensures fun recorded t => ∃ reads, claimReads t.history = [] ++ reads ∧
        Records c revision [] operations reads recorded) ⟨w, []⟩ := by
    unfold SharedClient.planOwnershipPreconditions
    split
    · exact safe_throw
    · exact preconditionsOf_recorded operations [] rfl
  obtain ⟨reads, hreads, hrec⟩ := run_result hsafe hrun
  rw [List.nil_append, List.nil_append] at hreads
  rw [hreads]
  exact hrec

/-- Others may do anything, but leave the claims with this name alone. -/
structure Sparing (name : String) (w w' : World) : Prop where
  step : Interference w w'
  same : ∀ claim : Claim, claim.name = name → (claim ∈ w'.store.objects ↔ claim ∈ w.store.objects)

/-- The call creates a claim with this name, or writes its spec. -/
def Overwrites (name : String) : Call → Prop
  | .create draft => draft.name = name
  | .update request => request.name = name
  | _ => False

/-- A version that the client's own writes have made of another. -/
inductive Advanced (τ : History) : Nat → Nat → Prop
  | same (version : Nat) : Advanced τ version version
  | step {version : Nat} {ev : Event Call Answer World} {o n : Claim}
      (h : Advanced τ version o.resourceVersion) (hev : ev ∈ τ)
      (hwrite : Replaced ev.before.store ev.after.store o n) : Advanced τ version n.resourceVersion

theorem Advanced.mono {τ τ' : History} {v v' : Nat} (hτ : ∀ ev ∈ τ, ev ∈ τ') (h : Advanced τ v v') :
    Advanced τ' v v' := by
  induction h with
  | same => exact .same _
  | step _ hev hwrite ih => exact .step ih (hτ _ hev) hwrite

/-- What a call that does not overwrite them makes of the claims with a name: the status or the mark of
a deletion. -/
theorem exec_spares {e : Call} {r : Answer e} {n : Claim} (hexec : exec S e w r w') (hkeep : ¬ Overwrites name e)
    (hname : n.name = name) (hn : n ∈ w'.store.objects) :
    n ∈ w.store.objects ∨ ∃ o, Replaced w.store w'.store o n ∧ n.spec = o.spec := by
  rcases exec_store hexec with hsame | ⟨draft, rfl⟩ | ⟨req, rfl⟩ | ⟨req, rfl⟩ | ⟨victim, version, rfl⟩
  · exact .inl (hsame ▸ hn)
  all_goals
    rcases outcome_store hexec with hsame | hsame
    · exact .inl (hsame ▸ hn)
    rw [hsame] at hn ⊢
  · rcases create_cases w.store draft {} with ⟨err, hcr⟩ | ⟨m, t, hcr, hadd, hm, -, -⟩
    · rw [hcr] at hn
      exact .inl hn
    · rw [hcr] at hn
      rcases (hadd.mem n).1 hn with hold | rfl
      · exact .inl hold
      · exact absurd (hm.symm.trans hname) hkeep
  · rcases update_changes w.store req with hup | ⟨o, m, hrep, ho, -, -⟩ | ⟨o, hrem⟩
    · exact .inl (hup ▸ hn)
    · rcases (hrep.mem n).1 hn with rfl | ⟨hold, -⟩
      · exact absurd (ho.symm.trans (hrep.name.symm.trans hname)) hkeep
      · exact .inl hold
    · exact .inl ((hrem.mem n).1 hn).1
  · rcases updateStatus_changes w.store req with hup | ⟨o, m, hrep, -, hspec, -⟩
    · exact .inl (hup ▸ hn)
    · rcases (hrep.mem n).1 hn with rfl | ⟨hold, -⟩
      · exact .inr ⟨o, hrep, hspec⟩
      · exact .inl hold
  · rcases delete_cases w.store victim version with ⟨err, hdel⟩ | ⟨err, t, o, hdel, hrem | ⟨m, hrep, hspec, -⟩⟩
    · rw [hdel] at hn
      exact .inl hn
    · rw [hdel] at hn
      exact .inl ((hrem.mem n).1 hn).1
    · rw [hdel] at hn ⊢
      rcases (hrep.mem n).1 hn with rfl | ⟨hold, -⟩
      · exact .inr ⟨o, hrep, hspec⟩
      · exact .inl hold

/-- The claims with the name in `w'` are those of `w`, up to the versions of the client's own writes in `τ`. -/
def ClaimKept (name : String) (w : World) (τ : History) (w' : World) : Prop :=
  ∀ n ∈ w'.store.objects, n.name = name → ∃ o ∈ w.store.objects, o.name = name ∧ n.uid = o.uid ∧ n.spec = o.spec ∧
    Advanced τ o.resourceVersion n.resourceVersion

theorem claimKept_refl (name : String) (w : World) : ClaimKept name w [] w :=
  fun n hn hname => ⟨n, hn, hname, rfl, rfl, .same _⟩

/-- **What a run leaves of a claim** that nobody else writes and the client's calls do not overwrite. -/
theorem run_kept {p q : Prog Call Answer α} (hrun : Run (exec S) (Sparing name) p w τ q w')
    (hkeep : ∀ ev ∈ τ, ¬ Overwrites name ev.call) : ClaimKept name w τ w' := by
  refine run_invariant (I := ClaimKept name w) (h := []) hrun (claimKept_refl name w) ?_ ?_
  · intro h u u' hstep hu n hn hname
    exact hu n ((hstep.same n hname).1 hn) hname
  · intro h ev hev hexec hu n hn hname
    have hmore : ∀ ev' ∈ h, ev' ∈ h ++ [ev] := fun ev' hev' => List.mem_append_left _ hev'
    rcases exec_spares hexec (hkeep ev hev) hname hn with hold | ⟨o, hrep, hspec⟩
    · obtain ⟨o, ho, honame, huid, hspec, hadv⟩ := hu n hold hname
      exact ⟨o, ho, honame, huid, hspec, hadv.mono hmore⟩
    · obtain ⟨first, hfirst, hfname, huid, hfspec, hadv⟩ := hu o hrep.old (hrep.name.symm.trans hname)
      exact ⟨first, hfirst, hfname, hrep.uid.trans huid, hspec.trans hfspec,
        .step (hadv.mono hmore) (by simp) hrep⟩

/-- Planning only reads. -/
theorem calls_planOwnershipPreconditions :
    (c.planOwnershipPreconditions operations revision).run.Calls fun e => ∃ name, e = .get name := by
  have hloop : ∀ names, (c.preconditionsOf revision names operations).run.Calls fun e => ∃ name,
    e = .get name := by
    induction operations with
    | nil => exact fun _ => calls_pure
    | cons operation rest ih =>
      intro names
      unfold SharedClient.preconditionsOf
      split
      · exact ih names
      refine calls_seq (calls_checked _) fun identity => ?_
      dsimp only
      split
      · exact ih names
      · exact calls_seq (calls_seq (calls_call ⟨_, rfl⟩) calls_read) fun claim => calls_seq (ih _)
          fun _ => calls_pure
  unfold SharedClient.planOwnershipPreconditions
  split
  · exact calls_throw
  · exact hloop []

/-- **Planning leaves the claims alone**, and sees them as they are before and after it. -/
theorem plan_same
    (hrun : Run (exec fun _ _ => True) (Sparing name)
      (c.planOwnershipPreconditions operations revision).run w τ q w')
    (hname : claim.name = name) : claim ∈ w'.store.objects ↔ claim ∈ w.store.objects := by
  refine run_invariant (I := fun _ u => claim ∈ u.store.objects ↔ claim ∈ w.store.objects)
    (h := []) hrun Iff.rfl ?_ ?_
  · intro h u u' hstep hu
    exact (hstep.same claim hname).trans hu
  · intro h ev hev hexec hu
    obtain ⟨e, u, r, u'⟩ := ev
    obtain ⟨asked, rfl⟩ : ∃ asked, e = .get asked := run_calls calls_planOwnershipPreconditions hrun _ hev
    obtain ⟨rfl, -⟩ : u' = u ∧ _ := hexec
    exact hu

/-- The claim is this client's, and is as the plan has recorded it. A version that only the
client's own writes have advanced counts as unchanged. -/
structure AsPlanned (c : SharedClient) (recorded : List Manager.OwnershipPrecondition) (τ : History)
    (claim : Claim) : Prop where
  controller : claim.spec.controllerID = c.controller
  recorded : ∃ m ∈ recorded, m.name = claim.name ∧ claim.uid = m.uid ∧
    Advanced τ m.resourceVersion claim.resourceVersion ∧ claim.spec.providerID = m.providerID ∧
    claim.spec.fingerprint = m.fingerprint

/-- **The claim a plan has recorded.** A plan records the claims it reads and is then applied. Take any
request of it: if the claim was this client's when planning began, others have left it alone since then,
and the client's own calls for the operations before have not overwritten it, then the claim at
authorization is confirmed and as planned. -/
theorem shared_mutation_as_planned {w₀ w₁ w₂ : World} {τ₁ τ₂ : History}
    (hplan : Run (exec fun _ _ => True) (Sparing name)
      (c.planOwnershipPreconditions operations revision).run w₀ τ₁
      (.ret (.ok recorded)) w₁)
    (happly : Run (exec fun _ _ => True) (Sparing name)
      (c.applyWithResults operationID operations false).run w₁ τ₂
      q w₂) (hown : ∀ claim ∈ w₀.store.objects, claim.name = name → claim.spec.controllerID = c.controller)
    (hτ : τ₂ = pre ++ ev :: post) (hkeep : ∀ e ∈ pre, ¬ Overwrites name e.call)
    (hcall : ev.call = .apply operation) (hidentity : identityFor c.targetName operation.current = .ok identity)
    (hname : claimName identity = name) :
    ∃ earlier claim, claimReads pre = earlier ++ [claim, claim] ∧ claim.name = name ∧
      claim.status.phase = .confirmed ∧ AsPlanned c recorded pre claim := by
  subst hname
  have hrecords := planOwnershipPreconditions_recorded (hplan.mono (fun _ _ _ _ h => h) fun _ _ h => h.step)
  obtain ⟨hplanned, hmutates, claim, snapshot, row, ha⟩ := run_events (h := []) applyWithResults_authorized
    (happly.mono (fun _ _ _ _ h => h) fun _ _ h => h.step) pre ev post hτ operation hcall
  obtain ⟨earlier, hreads⟩ := ha.reads
  rw [List.nil_append] at hreads
  have hclaimName : claim.name = claimName identity := by
    obtain ⟨identity', hid, hclaim⟩ := ha.name
    rw [hidentity] at hid
    rw [hclaim, Except.ok.inj hid]
  refine ⟨earlier, claim, hreads, hclaimName, ha.phase, ?_⟩
  -- the claim that was read was there when the execution began, and when the plan recorded it
  subst hτ
  have hread : claim ∈ claimReads pre := by rw [hreads]; simp
  obtain ⟨q', hpre⟩ := (run_until happly).1
  obtain ⟨ev₂, hev₂, hstored⟩ := read_stored hpre hread
  obtain ⟨before, after, rfl⟩ := List.append_of_mem hev₂
  obtain ⟨q'', hbefore⟩ := (run_until hpre).1
  obtain ⟨first, hfirst, hfirstName, huid, hspec, hadv⟩ :=
    run_kept hbefore (fun e he => hkeep e (List.mem_append_left _ he)) claim hstored hclaimName
  have hstart := (plan_same hplan hfirstName).1 hfirst
  obtain ⟨m, hm, hmname⟩ := (hrecords.complete operation hplanned hmutates identity hidentity).resolve_left
    (by simp)
  obtain ⟨read, hreadPlan, rfl⟩ := hrecords.sound m hm
  have hsame : read = first := by
    obtain ⟨ev₁, hev₁, hthen⟩ := read_stored hplan hreadPlan
    obtain ⟨pre₁, post₁, rfl⟩ := List.append_of_mem hev₁
    obtain ⟨q₁, hpre₁⟩ := (run_until hplan).1
    exact eq_of_name ((plan_same hpre₁ hmname).1 hthen) hstart (hmname.trans hfirstName.symm)
  subst hsame
  refine ⟨by rw [hspec]; exact hown _ hstart hfirstName, _, hm, hmname.trans hclaimName.symm, huid, ?_, ?_, ?_⟩
  · exact hadv.mono fun e he => List.mem_append_left _ he
  · rw [hspec]; rfl
  · rw [hspec]; rfl

/-- The row of the claim is to be deleted. -/
def blueDelete : Operation where
  type := .delete
  current := { claimedRecord with providerID := "5", ownerID := "blue" }

/-- The plan of this operation. -/
def bluePlan : Action (List Manager.OwnershipPrecondition) :=
  blueClient.planOwnershipPreconditions [blueDelete] "r1"

/-- Its execution. -/
def blueApply : Action (List OperationOutcome × List OwnershipError) :=
  blueClient.applyWithResults (fun _ => "") [blueDelete] false

/-- What the plan records. -/
def bluePrecondition : Manager.OwnershipPrecondition :=
  (Manager.preconditionForClaim .shared boundClaim "r1").ownership

/-- The world after the plan. -/
def plannedWorld : World := (runWith serve bluePlan.run (claimedWorld ["5"])).2.2

theorem bluePlan_run {env : World → World → Prop} :
    Run (exec fun _ _ => True) env bluePlan.run (claimedWorld ["5"])
      (runWith serve bluePlan.run (claimedWorld ["5"])).1 (.ret (.ok [bluePrecondition])) plannedWorld := by
  have hresult : (runWith serve bluePlan.run (claimedWorld ["5"])).2.1 = .ok [bluePrecondition] := by
    decide +kernel
  rw [← hresult]
  exact serve_run _ _

/-- The calls of the execution in a world. -/
def blueApplied (w : World) : History := (runWith serve blueApply.run w).1

/-- The first request of the execution in a world, for the delete, and the claims read before it. -/
theorem blueApplied_request {w : World}
    (h : requestSummary (blueApplied w) = some (.delete, "5", ["5"], [claim, claim])) :
    ∃ ev post operation, blueApplied w = beforeRequest (blueApplied w) ++ ev :: post ∧
      ev.call = .apply operation ∧
      operation ∈ [blueDelete] ∧ claimReads (beforeRequest (blueApplied w)) = [claim, claim] := by
  obtain ⟨ev, post, operation, hτ, hcall, -, -, -, hreads⟩ := request_of_summary h
  have hop := (run_events (h := []) applyWithResults_authorized
    (serve_run blueApply.run w) _ ev post hτ operation hcall).1
  exact ⟨ev, post, operation, hτ, hcall, hop, hreads⟩

/-- The call writes no claim. -/
def WritesNoClaim (ev : Event Call Answer World) : Prop :=
  ev.after.store.objects = ev.before.store.objects ∧ ¬ Overwrites boundClaim.name ev.call

instance (e : Call) (name : String) : Decidable (Overwrites name e) := by
  cases e <;> unfold Overwrites <;> infer_instance

instance (ev : Event Call Answer World) : Decidable (WritesNoClaim ev) := inferInstanceAs (Decidable (_ ∧ _))

theorem advanced_of_unwritten {τ : History} {v v' : Nat} (hτ : ∀ ev ∈ τ, WritesNoClaim ev) (h : Advanced τ v v') :
    v' = v := by
  cases h with
  | same => rfl
  | @step ev o n _ hev hwrite =>
    have hn := (hwrite.mem n).2 (.inl rfl)
    rw [(hτ ev hev).1] at hn
    have hlt := (ev.before.store.fresh n hn).2.1
    rw [hwrite.version] at hlt
    exact absurd hlt (Nat.lt_irrefl _)

/-- A plan that nothing disturbs: the claim at authorization is the recorded one. -/
theorem shared_mutation_as_planned_delete :
    ∃ pre ev post operation claim, blueApplied plannedWorld = pre ++ ev :: post ∧ ev.call = .apply operation ∧
      claim ∈ claimReads pre ∧ claim.status.phase = .confirmed ∧
      AsPlanned blueClient [bluePrecondition] pre claim := by
  obtain ⟨hsummary, hquiet⟩ :
      requestSummary (blueApplied plannedWorld) = some (.delete, "5", ["5"], [boundClaim, boundClaim]) ∧
        ∀ e ∈ beforeRequest (blueApplied plannedWorld), WritesNoClaim e := by decide +kernel
  obtain ⟨ev, post, operation, hτ, hcall, hop, -⟩ := blueApplied_request hsummary
  obtain rfl := List.mem_singleton.1 hop
  obtain ⟨earlier, claim, hreads, -, hphase, hplanned⟩ :=
    shared_mutation_as_planned (c := blueClient) bluePlan_run (serve_run _ _)
      (fun claim hclaim _ => by rw [List.mem_singleton.1 hclaim]; rfl) hτ (fun e he => (hquiet e he).2) hcall
      (show _ = Except.ok ⟨"edge", "example.com", "app.example.com", "A", "192.0.2.1"⟩ by decide +kernel) rfl
  exact ⟨_, ev, post, blueDelete, claim, hτ, hcall, by rw [hreads]; simp, hphase, hplanned⟩

/-- The claim after an operator has added a source to it. -/
def editedClaim : Claim :=
  { boundClaim with spec := { boundClaim.spec with sources := [⟨"v1", "Service", "web", "app", "u1"⟩] } }

/-- The world in which it is edited after the plan. -/
def editedWorld : World := { plannedWorld with store := (plannedWorld.store.update editedClaim).2 }

/-- **A claim that was edited after planning authorizes the request**: it has another version than the
one the plan has recorded, and nothing compares the two. -/
theorem shared_mutation_edited :
    ∃ τ₁ τ₂ q w₁ w₂, Run (exec fun _ _ => True) Interference bluePlan.run (claimedWorld ["5"]) τ₁
        (.ret (.ok [bluePrecondition])) w₁ ∧
      Run (exec fun _ _ => True) Interference blueApply.run w₁ τ₂ q w₂ ∧
      ∃ pre ev post, τ₂ = pre ++ ev :: post ∧ ev.call = .apply blueDelete ∧
        claimReads pre = [{ editedClaim with resourceVersion := 2 }, { editedClaim with resourceVersion := 2 }] ∧
        ∀ claim ∈ claimReads pre, ¬ AsPlanned blueClient [bluePrecondition] pre claim := by
  refine ⟨_, _, _, _, _, bluePlan_run, .env (.update plannedWorld editedClaim) (serve_run _ _), ?_⟩
  -- the calls before the request write no claim
  obtain ⟨hsummary, hquiet⟩ : requestSummary (blueApplied editedWorld) = some (.delete, "5", ["5"],
      [{ editedClaim with resourceVersion := 2 }, { editedClaim with resourceVersion := 2 }]) ∧
        ∀ e ∈ beforeRequest (blueApplied editedWorld), WritesNoClaim e := by decide +kernel
  obtain ⟨ev, post, operation, hτ, hcall, hop, hreads⟩ := blueApplied_request hsummary
  obtain rfl := List.mem_singleton.1 hop
  refine ⟨_, ev, post, hτ, hcall, hreads, fun claim hclaim hplanned => ?_⟩
  have hversion : claim.resourceVersion = 2 := by
    rw [hreads] at hclaim
    have hclaim : claim = { editedClaim with resourceVersion := 2 } := by simpa using hclaim
    rw [hclaim]
  -- so the version is not the client's own doing
  obtain ⟨m, hm, -, -, hadvanced, -, -⟩ := hplanned.recorded
  have hsame := advanced_of_unwritten hquiet hadvanced
  rw [List.mem_singleton.1 hm, hversion] at hsame
  exact absurd hsame (by decide +kernel)

end FortigateDns
