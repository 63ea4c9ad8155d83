import Mathlib.Data.List.TakeWhile
import FortigateDns.Proof.ClaimWrites
import FortigateDns.Proof.OpenRuns
import FortigateDns.Proof.TwoPhaseCreate

/-!
# On what evidence the two-phase create confirms a claim

Over every run of `ReconcileCreate`, whatever others do to the claims between its calls,
deletion and recreation included: a write that confirms a claim is based on the latest snapshot,
in which exactly one row is the record of the *request*, and the claim is bound to that row.
Before the POST the claim is the one that was reserved, so it is also the record of the claim.
After the POST the claim is read again, and nothing compares it with the request.
-/

namespace FortigateDns

open Go Conc Store Option Bool

variable {h : History} {ev : Event Call Answer World} {name : String}
variable (records : List Endpoint)

/-- The event gives a claim a confirmed status that it did not have. -/
structure Confirms (ev : Event Call Answer World) (claim : Claim) : Prop where
  stored : claim ∈ ev.after.store.objects
  confirmed : claim.status.phase = .confirmed
  moved : ∀ c ∈ ev.before.store.objects, c.uid = claim.uid → c.status ≠ claim.status

/-- A call that writes no confirmed status. -/
def Unconfirming : Call → Prop
  | .updateStatus claim => claim.status.phase ≠ .confirmed
  | _ => True

section

variable {S : World → Snapshot → Prop} {e : Call} {w w' : World} {r : Answer e} {claim : Claim}

/-- What a confirming call confirms is what it has written. -/
theorem Confirms.wrote (hexec : exec S e w r w') (h : Confirms ⟨e, w, r, w'⟩ claim) : WroteClaim e w claim :=
  (exec_wrote hexec h.stored).resolve_left fun hold => h.moved claim hold rfl rfl

/-- **Only a status write confirms.** -/
theorem unconfirming_quiet (he : Unconfirming e) (hexec : exec S e w r w') : ¬Confirms ⟨e, w, r, w'⟩ claim := by
  intro hconf
  have hphase := hconf.confirmed
  cases hconf.wrote hexec with
  | create hnew hstatus =>
    rw [hstatus] at hphase
    cases hphase
  | update ho hver hn => exact hconf.moved _ ho hn.uid.symm hn.status.symm
  | updateStatus ho hver hn =>
    rw [hn.status] at hphase
    exact he hphase
  | delete ho huid hspec hstatus => exact hconf.moved _ ho huid.symm hstatus.symm

/-- A status write that is based on a claim that was read confirms that claim. -/
theorem updateStatus_confirms {c req : Claim} {r : Except StoreError Claim}
    (hexec : exec S (.updateStatus req) w r w') (hconf : Confirms ⟨.updateStatus req, w, r, w'⟩ claim)
    (hc : Seen c w.store) (hv : req.resourceVersion = c.resourceVersion) :
    claim.name = c.name ∧ claim.spec = c.spec := by
  obtain ⟨-, hn⟩ := wrote_updateStatus (hconf.wrote hexec) hc hv
  exact ⟨hn.name, hn.spec⟩

/-- The answer to an update that is based on a claim that was read. -/
theorem update_answer {c req n : Claim} (hexec : exec S (.update req) w (.ok n) w') (hc : Seen c w.store)
    (hv : req.resourceVersion = c.resourceVersion) : Seen n w'.store ∧ n.name = c.name ∧ n.spec = req.spec := by
  obtain ⟨-, hn, hseen⟩ := update_answered hexec hc hv
  exact ⟨hseen, hn.name, hn.spec⟩

end

/-- The event is a POST. -/
def posted (ev : Event Call Answer World) : Bool := isPost ev.call

/-- The claim that was read first after the POST. -/
def reread (h : History) : Option Claim := (claimReads (h.dropWhile fun ev => !posted ev)).head?

/-- What a decision is based on: the latest snapshot, and the claim that was read after the POST,
or that there was no POST. -/
structure Decision (snapshot : Snapshot) (again : Option Claim) (h : History) : Prop where
  taken : lastSnapshot h = some snapshot
  read : reread h = again
  unposted : again = none → h.any posted = false

theorem dropWhile_unposted (hh : h.any posted = false) : (h.dropWhile fun ev => !posted ev) = [] := by
  rw [List.dropWhile_eq_nil_iff]
  intro ev hev
  rw [List.any_eq_false] at hh
  simpa using hh ev hev

theorem reread_unposted (hh : h.any posted = false) : reread h = none := by
  rw [reread, dropWhile_unposted hh]
  rfl

theorem readClaim_posted (h : posted ev = true) : readClaim ev = none := by
  obtain ⟨e, before, answer, after⟩ := ev
  cases e <;> first | rfl | simp [posted, isPost] at h

/-- The history until the POST reads no claim again. -/
theorem reread_post (hh : h.any posted = false) (ev : Event Call Answer World) : reread (h ++ [ev]) = none := by
  have hdrop : (h ++ [ev]).dropWhile (fun ev => !posted ev) = [ev].dropWhile fun ev => !posted ev := by
    refine List.dropWhile_append_of_pos fun x hx => ?_
    rw [List.any_eq_false] at hh
    simpa using hh x hx
  rw [reread, hdrop]
  cases hev : posted ev with
  | false => simp [hev, claimReads]
  | true => simp [hev, claimReads, readClaim_posted hev]

/-- After the POST every claim that is read counts. -/
theorem reread_append (hh : h.any posted = true) (ev : Event Call Answer World) :
    reread (h ++ [ev]) = (reread h).or (readClaim ev) := by
  have hdrop : (h ++ [ev]).dropWhile (fun ev => !posted ev) = (h.dropWhile fun ev => !posted ev) ++ [ev] := by
    rw [List.dropWhile_append, if_neg]
    obtain ⟨x, hx, hpost⟩ := List.any_eq_true.1 hh
    rw [List.isEmpty_iff, List.dropWhile_eq_nil_iff]
    intro hall
    have := hall x hx
    simp [hpost] at this
  rw [reread, hdrop, claimReads_append, List.head?_append]
  cases readClaim ev <;> rfl

theorem any_posted_append (h : History) (ev : Event Call Answer World) :
    (h ++ [ev]).any posted = (h.any posted || posted ev) := by simp

/-- A call to the store that writes no confirmed status. -/
def Internal : Call → Prop
  | .snapshot | .post _ _ | .apply _ => False
  | .updateStatus claim => claim.status.phase ≠ .confirmed
  | _ => True

theorem internal_storing : Storing Internal where
  get _ := trivial
  list := trivial
  now := trivial
  create _ := trivial
  update _ := trivial
  updateStatus _ h := h

/-- A decision stays based on what it is based on until the next snapshot or POST. -/
theorem Decision.append {snapshot : Snapshot} {again : Option Claim} (hk : Decision snapshot again h)
    (hsnap : readSnapshot ev = none) (hpost : posted ev = false) :
    Decision snapshot again (h ++ [ev]) where
  taken := by rw [lastSnapshot_append, hsnap, hk.taken]; rfl
  read := by
    cases again with
    | none => exact reread_post (hk.unposted rfl) ev
    | some c =>
      have hany : h.any posted = true := by
        by_contra hno
        rw [not_eq_true] at hno
        have := hk.read
        rw [reread_unposted hno] at this
        simp at this
      rw [reread_append hany, hk.read]
      rfl
  unposted hnone := by rw [any_posted_append, hk.unposted hnone, hpost]; rfl

theorem Internal.unconfirming {e : Call} (h : Internal e) : Unconfirming e := by
  cases e with
  | updateStatus claim => exact h
  | _ => trivial

theorem Internal.silent {e : Call} (h : Internal e) {w w' : World} {r : Answer e} :
    readSnapshot ⟨e, w, r, w'⟩ = none ∧ posted ⟨e, w, r, w'⟩ = false := by
  cases e with
  | snapshot => exact absurd h id
  | post endpoint origin => exact absurd h id
  | _ => exact ⟨rfl, rfl⟩

/-- The claim is what the request asks for: its target, record, fingerprint and controller. -/
def matchesRequest (request : Repository.ReserveRequest) (claim : Claim) : Bool :=
  match identityFor request.targetName request.endpoint, fingerprint request.targetName request.endpoint with
  | .ok identity, .ok print => claimSpecMatches claim identity print request.controllerID
  | _, _ => false

theorem matchesRequest_iff {request : Repository.ReserveRequest} {claim : Claim} {identity : Identity}
    {print : String} (hid : identityFor request.targetName request.endpoint = .ok identity)
    (hprint : fingerprint request.targetName request.endpoint = .ok print) :
    matchesRequest request claim = true ↔ claimSpecMatches claim identity print request.controllerID = true := by
  unfold matchesRequest
  rw [hid, hprint]

/-- **The evidence for a claim**: it is the caller's, and in the stable snapshot exactly one row has
its identity, with its fingerprint and with the ID it is bound to, which no other row has. -/
structure Evidence (request : Repository.ReserveRequest) (snapshot : Snapshot) (claim : Claim) : Prop where
  controller : claim.spec.controllerID = trimSpace request.controllerID
  stable : validateSnapshot snapshot = true
  row : ∃ identity row, equalFold (trimSpace claim.spec.targetRef) identity.targetName = true ∧
    claim.spec.record = recordKey identity ∧ claim.name = claimName identity ∧
    snapshot.records.filter (fun r => identityFor request.targetName r = .ok identity) = [row] ∧
    fingerprint request.targetName row = .ok claim.spec.fingerprint ∧
    claim.spec.providerID = row.providerID ∧ providerRecordsByID snapshot.records claim.spec.providerID = [row]

/-- Every confirming write is based on a snapshot, and the evidence is for the claim exactly when
the claim was as requested when it was read after the POST. -/
def BackedEvent (request : Repository.ReserveRequest) (h : History) (ev : Event Call Answer World) : Prop :=
  ∀ claim, Confirms ev claim → ∃ snapshot, lastSnapshot h = some snapshot ∧
    (Evidence request snapshot claim ↔ ∀ c, reread h = some c → matchesRequest request c = true)

/-- The contract of the create, under any interference. -/
def evidenceContract (request : Repository.ReserveRequest) : Contract Call Answer (Logged Call Answer World) :=
  logged (exec fun _ _ => True) Interference (BackedEvent request)

section

variable {request : Repository.ReserveRequest} {s : Logged Call Answer World} {α : Type}
variable {snapshot : Snapshot} {again : Option Claim} {c : Claim}

theorem unconfirming_backed {e : Call} {w w' : World} {r : Answer e} (he : Unconfirming e)
    (hexec : exec (fun _ _ => True) e w r w') : BackedEvent request h ⟨e, w, r, w'⟩ :=
  fun _ hconf => absurd hconf (unconfirming_quiet he hexec)

/-- A program of internal calls does what it does, and the decision stays based on the same. -/
theorem internal_safe {x : Action α} {Q : α → World → Prop} (hx : x.run.Calls Internal)
    (hk : Decision snapshot again s.history) (h : Safe openContract x.run (Ensures Q) s.state) :
    Safe (evidenceContract request) x.run
      (Ensures fun a t => Q a t.state ∧ Decision snapshot again t.history) s := by
  refine quiet_safe hx (fun e h w r w' he hJ hexec => ?_) hk h
  exact ⟨unconfirming_backed he.unconfirming hexec, hJ.append he.silent.1 he.silent.2⟩

theorem decision_stable : (evidenceContract request).Stable fun t => Decision snapshot again t.history :=
  history_logged (Decision snapshot again)

/-- **A confirmation** confirms the claim whose version it was given. -/
theorem transition_backed {revision : String} (hc : Seen c s.state.store) (hk : Decision snapshot again s.history)
    (hback : ∀ n : Claim, n.name = c.name → n.spec = c.spec →
      (Evidence request snapshot n ↔ ∀ c, again = some c → matchesRequest request c = true)) :
    Safe (evidenceContract request) (Repository.transition name c.resourceVersion .confirmed revision).run
      (Ensures fun _ _ => True) s := by
  unfold Repository.transition
  refine safe_seq (internal_safe (internal_storing.marking.calls_get name) hk (get_seen hc))
    fun found t hfound => ?_
  obtain ⟨⟨-, hseen, heq⟩, hk⟩ := hfound
  split
  · exact safe_throw
  rename_i hver
  obtain rfl := heq (by simpa using (not_or.1 hver).2)
  refine safe_seq (internal_safe (internal_storing.marking.calls_confirmedTime _) hk
    (confirmedTime_safe open_discipline (seen_stable open_discipline found) hseen.seen)) fun now t' ht' => ?_
  obtain ⟨hseen, hk⟩ := ht'
  -- the write itself: what it confirms is the claim that was read
  refine safe_then_call ((seen_logged found).and decision_stable) ⟨hseen, hk⟩ fun u hu r u' hexec => ⟨?_, ?_⟩
  · intro n hconf
    obtain ⟨hname, hspec⟩ := updateStatus_confirms hexec.1 hconf hu.1 rfl
    refine ⟨snapshot, hu.2.taken, ?_⟩
    rw [hu.2.read]
    exact hback n hname hspec
  · cases r with
    | error err => exact safe_throw
    | ok n => exact safe_pure (stable_const True) trivial

/-- **`Confirm`** binds the claim whose version it was given to the row, and confirms it. -/
theorem confirm_backed {providerID revision : String} (hc : Seen c s.state.store)
    (hk : Decision snapshot again s.history)
    (hback : ∀ n : Claim, n.name = c.name → n.spec = { c.spec with providerID := providerID } →
      (Evidence request snapshot n ↔ ∀ c, again = some c → matchesRequest request c = true)) :
    Safe (evidenceContract request) (Repository.confirm name c.resourceVersion providerID revision).run
      (Ensures fun _ _ => True) s := by
  unfold Repository.confirm
  split
  · exact safe_throw
  refine safe_seq (internal_safe internal_storing.marking.calls_revalidateUnique hk (revalidate_seen hc))
    fun found t hfound => ?_
  obtain ⟨⟨rfl, hseen⟩, hk⟩ := hfound
  split
  · exact safe_throw
  split
  · refine safe_attempt_then (safe_mono (fun _ _ _ => trivial) (internal_safe (Q := fun _ _ => True)
      internal_storing.marking.calls_markConflict hk ?_)) fun _ _ => safe_throw
    refine safe_mono (fun r _ _ => ?_) (transition_conflict open_discipline)
    cases r <;> trivial
  split
  · -- the claim is bound first, and what is stored then is confirmed
    refine safe_then_call ((seen_logged found).and decision_stable) ⟨hseen, hk⟩ fun u hu r u' hexec =>
      ⟨unconfirming_backed trivial hexec.1, ?_⟩
    cases r with
    | error err => exact safe_throw
    | ok n =>
      obtain ⟨hn, hname, hspec⟩ := update_answer hexec.1 hu.1 rfl
      have hk' : Decision snapshot again u'.history := by
        rw [hexec.2]
        exact hu.2.append rfl rfl
      exact transition_backed hn hk' fun m hm hs => hback m (hm.trans hname) (hs.trans hspec)
  · rename_i hsame
    refine transition_backed hseen hk fun m hm hs => hback m hm ?_
    rw [hs, ← not_not.1 hsame]

omit request in
/-- What `confirmObserved` has seen when it confirms: one row is the record of the request. -/
structure Observed (request : Repository.ReserveRequest) (snapshot : Snapshot) (identity : Identity)
    (print : String) (row : Endpoint) : Prop where
  asked : identityFor request.targetName request.endpoint = .ok identity
  asked_print : fingerprint request.targetName request.endpoint = .ok print
  only : snapshot.records.filter (fun r => identityFor request.targetName r = .ok identity) = [row]
  row_print : fingerprint request.targetName row = .ok print
  row_id : providerRecordsByID snapshot.records row.providerID = [row]

omit request in
theorem rows_of_identity (targetName : String) (identity : Identity) :
    (records.filter fun record =>
      match identityFor targetName record with
      | .error _ => false
      | .ok i => i == identity) = records.filter fun r => identityFor targetName r = .ok identity := by
  refine List.filter_congr fun r _ => ?_
  cases identityFor targetName r with
  | error err => simp
  | ok i => simp [beq_eq_decide]

omit request in
theorem inspect_exact (targetName id print : String) (identity : Identity) :
    (inspect records targetName id print fun i => i == identity).exact =
      (records.filter fun r => identityFor targetName r = .ok identity).filter
        fun r => fingerprint targetName r == .ok print := by
  rw [← rows_of_identity]
  rfl

omit request in
theorem inspect_divergent (targetName id print : String) (identity : Identity) :
    (inspect records targetName id print fun i => i == identity).divergent =
      (records.filter fun r => identityFor targetName r = .ok identity).filter
        fun r => !(fingerprint targetName r == .ok print) := by
  rw [← rows_of_identity]
  rfl

theorem observed_row {found : Inspection} {row : Endpoint} {rest : List Endpoint}
    (h : inspectRecord snapshot.records request.targetName request.endpoint "" = .ok found)
    (hone : ¬(found.reused = true ∨ 1 < found.exact.length ∨ 0 < found.divergent.length))
    (hexact : found.exact = row :: rest)
    (hid : (providerRecordsByID snapshot.records row.providerID).length = 1) :
    ∃ identity print, Observed request snapshot identity print row := by
  unfold inspectRecord at h
  cases hi : identityFor request.targetName request.endpoint with
  | error err => rw [hi] at h; simp [bind, Except.bind] at h
  | ok identity =>
  cases hp : fingerprint request.targetName request.endpoint with
  | error err => rw [hi, hp] at h; simp [bind, Except.bind] at h
  | ok print =>
    rw [hi, hp] at h
    obtain rfl := Except.ok.inj h
    obtain ⟨-, hlen⟩ := not_or.1 hone
    obtain ⟨hlen, hdiv⟩ := not_or.1 hlen
    -- the rows of the identity, which are all exact
    rw [inspect_exact] at hexact hlen
    rw [inspect_divergent] at hdiv
    have hall := List.filter_eq_nil_iff.1 (List.eq_nil_of_length_eq_zero (Nat.le_zero.1 (Nat.not_lt.1 hdiv)))
    have hself : (snapshot.records.filter (fun r => identityFor request.targetName r = .ok identity)).filter
        (fun record => fingerprint request.targetName record == .ok print) =
        snapshot.records.filter (fun r => identityFor request.targetName r = .ok identity) :=
      List.filter_eq_self.2 fun r hr => by simpa using hall r hr
    rw [hself] at hexact hlen
    have hrest : rest = [] := by
      rw [hexact, List.length_cons] at hlen
      exact List.eq_nil_of_length_eq_zero (by omega)
    subst hrest
    have hmem : row ∈ snapshot.records.filter (fun r => identityFor request.targetName r = .ok identity) := by
      rw [hexact]
      exact List.mem_singleton_self row
    have hprint : fingerprint request.targetName row = .ok print := by simpa using hall row hmem
    refine ⟨identity, print, hi, hp, hexact, hprint, ?_⟩
    obtain ⟨x, hx⟩ := List.length_eq_one_iff.1 hid
    have hrow : row ∈ providerRecordsByID snapshot.records row.providerID :=
      List.mem_filter.2 ⟨List.mem_of_mem_filter hmem, by simp⟩
    rw [hx, List.mem_singleton] at hrow
    rw [hx, hrow]

/-- **The evidence for the request is evidence for the claim** exactly when the claim is what the
request asks for. -/
theorem Observed.evidence_iff {identity : Identity} {print : String} {row : Endpoint}
    (h : Observed request snapshot identity print row) (hstable : validateSnapshot snapshot = true)
    (hname : ∀ i, identityFor request.targetName request.endpoint = .ok i → c.name = claimName i) {n : Claim}
    (hn : n.name = c.name) (hspec : n.spec = { c.spec with providerID := row.providerID }) :
    Evidence request snapshot n ↔ matchesRequest request c = true := by
  rw [matchesRequest_iff h.asked h.asked_print]
  constructor
  · rintro ⟨hctrl, -, identity', row', htarget, hrecord, -, honly, hprint, hid, hids⟩
    -- the claim is bound to the row that was observed, so that is the row
    have hrow : row' = row := by
      rw [hspec] at hids
      exact (List.cons.inj (hids.symm.trans h.row_id)).1
    subst hrow
    have hidentity : ∀ {i : Identity}, snapshot.records.filter
        (fun r => identityFor request.targetName r = .ok i) = [row'] →
        identityFor request.targetName row' = .ok i := by
      intro i hi
      have := List.mem_filter.1 (hi ▸ List.mem_singleton_self row')
      simpa using this.2
    obtain rfl := Except.ok.inj ((hidentity honly).symm.trans (hidentity h.only))
    have hprint' : n.spec.fingerprint = print := Except.ok.inj (hprint.symm.trans h.row_print)
    rw [hspec] at hctrl htarget hrecord hprint'
    dsimp only at hctrl htarget hrecord hprint'
    simp only [claimSpecMatches, htarget, hrecord, hprint', hctrl, beq_self_eq_true, Bool.and_self]
  · intro hmatch
    simp only [claimSpecMatches, and_eq_true, beq_iff_eq] at hmatch
    obtain ⟨⟨⟨htarget, hrecord⟩, hfp⟩, hctrl⟩ := hmatch
    refine ⟨by rw [hspec]; exact hctrl, hstable, identity, row, ?_, ?_, ?_, h.only, ?_, ?_, ?_⟩
    · rw [hspec]; exact htarget
    · rw [hspec]; exact hrecord
    · rw [hn]; exact hname _ h.asked
    · rw [hspec, h.row_print, ← hfp]
    · rw [hspec]
    · rw [hspec]; exact h.row_id

theorem mark_safe {x : Action Claim} (hx : x.run.Calls Internal) {f : Except OwnershipError Claim → Action α}
    {Q : α → Logged Call Answer World → Prop}
    (hf : ∀ r t, Safe (evidenceContract request) (f r).run (Ensures Q) t) :
    Safe (evidenceContract request) (attempt x >>= f).run (Ensures Q) s := by
  refine safe_attempt_then (safe_calls hx (fun e u r u' he hexec => ?_) s) hf
  exact unconfirming_backed he.unconfirming hexec.1

/-- **What a confirmation is based on**: the row of the request, and the claim that was reserved or,
after the POST, the claim that was read again. -/
theorem confirmObserved_backed (hc : Seen c s.state.store) (hk : Decision snapshot again s.history)
    (hstable : validateSnapshot snapshot = true)
    (hname : ∀ i, identityFor request.targetName request.endpoint = .ok i → c.name = claimName i)
    (hagain : again = none ∧ matchesRequest request c = true ∨ again = some c) :
    Safe (evidenceContract request)
      (Manager.confirmObserved c request.targetName request.endpoint snapshot).run
      (Ensures fun result t => result = none → Decision snapshot again t.history) s := by
  unfold Manager.confirmObserved
  cases hfound : inspectRecord snapshot.records request.targetName request.endpoint "" with
  | error err => exact safe_throw
  | ok found =>
  refine safe_pure_then ?_
  split
  · exact mark_safe internal_storing.marking.calls_markConflict fun _ _ => safe_throw
  rename_i hone
  split
  · split
    · exact mark_safe (internal_storing.marking.calls_transition (internal_storing.writes (by simp)))
        fun _ _ => safe_throw
    · exact safe_pure (fun a b h ha hn => decision_stable a b h (ha hn)) fun _ => hk
  · rename_i row rest hexact
    split
    · exact mark_safe internal_storing.marking.calls_markConflict fun _ _ => safe_throw
    rename_i hrow
    obtain ⟨identity, print, hobs⟩ := observed_row hfound hone hexact (not_not.1 (not_or.1 hrow).2)
    refine safe_seq (confirm_backed hc hk fun n hn hspec => ?_) fun confirmed t _ =>
      safe_pure (fun _ _ _ _ h => by simp at h) (by simp)
    rw [hobs.evidence_iff hstable hname hn hspec]
    rcases hagain with ⟨rfl, hmatch⟩ | rfl
    · exact ⟨fun _ => nofun, fun _ => hmatch⟩
    · exact ⟨fun h c' hc' => some.inj hc' ▸ h, fun h => h c rfl⟩

/-- A snapshot that is taken becomes the latest. -/
theorem validSnapshot_taken {K : Logged Call Answer World → Prop} (hK : (evidenceContract request).Stable K)
    (hs : K s) (hstep : ∀ u r, K u → K ⟨u.state, u.history ++ [⟨.snapshot, u.state, r, u.state⟩]⟩) :
    Safe (evidenceContract request) Repository.validSnapshot.run
      (Ensures fun snapshot t => validateSnapshot snapshot = true ∧
        lastSnapshot t.history = some snapshot ∧ K t) s := by
  refine safe_then_call hK hs fun u hu r t hexec => ⟨unconfirming_backed trivial hexec.1, ?_⟩
  obtain ⟨w, history⟩ := t
  obtain ⟨⟨hw, -⟩, hhist⟩ := hexec
  obtain rfl : w = u.state := hw
  obtain rfl : history = u.history ++ [⟨.snapshot, u.state, r, u.state⟩] := hhist
  cases r with
  | error err => exact safe_throw
  | ok snapshot =>
    refine safe_pure_then ?_
    split
    · rename_i hvalid
      refine safe_pure ((stable_const _).and (Contract.Stable.and ?_ hK)) ⟨hvalid, ?_, hstep u _ hu⟩
      · intro a b h ha
        rw [h.2]
        exact ha
      · rw [lastSnapshot_append]
        rfl
    · exact safe_throw

theorem relist_taken {created : Except OwnershipError Unit} {K : Logged Call Answer World → Prop}
    (hK : (evidenceContract request).Stable K) (hs : K s)
    (hstep : ∀ u r, K u → K ⟨u.state, u.history ++ [⟨.snapshot, u.state, r, u.state⟩]⟩) :
    Safe (evidenceContract request) (Manager.relist created).run
      (Ensures fun snapshot t => validateSnapshot snapshot = true ∧
        lastSnapshot t.history = some snapshot ∧ K t) s := by
  unfold Manager.relist
  refine safe_attempt_seq (validSnapshot_taken hK hs hstep) fun after t hafter => ?_
  split
  · refine safe_pure ((stable_const _).and (Contract.Stable.and ?_ hK)) hafter
    exact history_logged fun h => lastSnapshot h = some _
  · exact safe_throw
  · exact safe_throw

/-- After the POST the claim is read again, under the name it was reserved with. -/
theorem confirmCreated_backed {created : Except OwnershipError Unit}
    (hname : ∀ i, identityFor request.targetName request.endpoint = .ok i → name = claimName i)
    (hposted : s.history.any posted = true) (hread : reread s.history = none) :
    Safe (evidenceContract request) (Manager.confirmCreated name request created).run
      (Ensures fun _ _ => True) s := by
  unfold Manager.confirmCreated
  have hstable : (evidenceContract request).Stable fun t => t.history.any posted = true ∧
    reread t.history = none :=
    history_logged fun h => h.any posted = true ∧ reread h = none
  refine safe_seq (relist_taken hstable ⟨hposted, hread⟩ ?_) fun snapshot t ht => ?_
  · rintro u r ⟨hany, hnone⟩
    refine ⟨by rw [any_posted_append, hany]; rfl, ?_⟩
    rw [reread_append hany, hnone]
    rfl
  obtain ⟨hvalid, htaken, hany, hnone⟩ := ht
  -- the read after the POST
  refine safe_seq (P := fun c t => Seen c t.state.store ∧ c.name = name ∧ Decision snapshot (some c) t.history) ?_
    fun c t hc => ?_
  · refine safe_then_call (history_logged fun h => lastSnapshot h = some snapshot ∧ h.any posted = true ∧
      reread h = none) ⟨htaken, hany, hnone⟩ fun u hu r u' hexec => ⟨unconfirming_backed trivial hexec.1, ?_⟩
    obtain ⟨htaken, hany, hnone⟩ := hu
    cases r with
    | error err => cases err <;> exact safe_throw
    | ok c =>
      have hget : u.state.store.get name = .ok c := by
        rcases hexec.1.2 with hr | hr
        · exact hr.symm
        · simp at hr
      refine safe_pure ((seen_logged c).and ((stable_const _).and decision_stable)) ⟨?_, (get_ok hget).2, ?_⟩
      · rw [hexec.1.1]
        exact seen_of_mem (get_ok hget).1
      · rw [hexec.2]
        refine ⟨by rw [lastSnapshot_append, htaken]; rfl, ?_, nofun⟩
        rw [reread_append hany, hnone]
        rfl
  obtain ⟨hseen, hcn, hk⟩ := hc
  refine safe_seq (confirmObserved_backed hseen hk hvalid (fun i hi => hcn.trans (hname i hi)) (Or.inr rfl))
    fun result u _ => ?_
  split
  · exact safe_pure (stable_const True) trivial
  · cases created <;> exact safe_throw

/-- A call before the POST that writes no confirmed status. -/
def Unposted : Call → Prop
  | .post _ _ | .apply _ => False
  | .updateStatus claim => claim.status.phase ≠ .confirmed
  | _ => True

theorem unposted_storing : Storing Unposted where
  get _ := trivial
  list := trivial
  now := trivial
  create _ := trivial
  update _ := trivial
  updateStatus _ h := h

theorem Unposted.quiet {e : Call} (h : Unposted e) :
    Unconfirming e ∧ ∀ (w w' : World) (r : Answer e), posted ⟨e, w, r, w'⟩ = false := by
  cases e with
  | updateStatus claim => exact ⟨h, fun _ _ _ => rfl⟩
  | post endpoint origin => exact absurd h id
  | _ => exact ⟨trivial, fun _ _ _ => rfl⟩

/-- What `Reserve` returns is the claim that the request asks for. -/
theorem reserve_matches (hs : s.history.any posted = false) :
    Safe (evidenceContract request) (Repository.reserve { request with hasSnapshot := true }).run
      (Ensures fun c t => (Seen c t.state.store ∧ matchesRequest request c = true ∧
        ∀ i, identityFor request.targetName request.endpoint = .ok i → c.name = claimName i) ∧
        t.history.any posted = false) s := by
  have hsafe : Safe openContract (Repository.reserve { request with hasSnapshot := true }).run
      (Ensures fun c t => Seen c t.store ∧ matchesRequest request c = true ∧
        ∀ i, identityFor request.targetName request.endpoint = .ok i → c.name = claimName i) s.state := by
    refine safe_mono (Ensures.mono ?_) (reserve_safe open_discipline)
    rintro c t ⟨identity, print, hid, hprint, ⟨hfound, hname, -⟩, hmatch⟩
    exact ⟨hfound.seen, (matchesRequest_iff hid hprint).2 hmatch,
      fun i hi => Except.ok.inj (hid.symm.trans hi) ▸ hname⟩
  refine quiet_safe (J := fun h => h.any posted = false) (unposted_storing.calls_reserve trivial)
    (fun e h w r w' he hJ hexec => ?_) hs hsafe
  refine ⟨unconfirming_backed he.quiet.1 hexec, ?_⟩
  rw [any_posted_append, hJ, he.quiet.2 w w' r]
  rfl

/-- **Every confirming write of the two-phase create is backed.** -/
theorem reconcileCreate_backed (hs : s.history.any posted = false) :
    Safe (evidenceContract request) (Manager.reconcileCreate request).run (Ensures fun _ _ => True) s := by
  unfold Manager.reconcileCreate
  refine safe_seq (reserve_matches hs) fun c t hc => ?_
  obtain ⟨⟨hseen, hmatch, hname⟩, hun⟩ := hc
  refine safe_seq (validSnapshot_taken ((seen_logged c).and
    (history_logged fun h => h.any posted = false)) ⟨hseen, hun⟩ ?_) fun snapshot t' ht' => ?_
  · rintro u r ⟨hu, hun⟩
    exact ⟨hu, by rw [any_posted_append, hun]; rfl⟩
  obtain ⟨hvalid, htaken, hseen, hun⟩ := ht'
  have hk : Decision snapshot none t'.history := ⟨htaken, reread_unposted hun, fun _ => hun⟩
  refine safe_seq (confirmObserved_backed hseen hk hvalid hname (Or.inl ⟨rfl, hmatch⟩)) fun result u hu => ?_
  cases result with
  | some confirmed => exact safe_pure (stable_const True) trivial
  | none =>
    have hun := (hu rfl).unposted rfl
    dsimp only
    split
    · exact safe_throw
    cases identityFor request.targetName request.endpoint with
    | error err => exact safe_throw
    | ok identity =>
      refine safe_then_call (history_logged fun h => h.any posted = false) hun fun v hv r v' hexec =>
        ⟨unconfirming_backed trivial hexec.1, confirmCreated_backed hname ?_ ?_⟩
      · rw [hexec.2, any_posted_append]
        exact or_true _
      · rw [hexec.2]
        exact reread_post hv _

end

/-- **What a claim is confirmed on.** `ReconcileCreate` runs under any interference. For every write
of it that confirms a claim, the latest snapshot is evidence for that claim exactly when the claim
that was read after the POST, if there was one, was as requested. -/
theorem confirmed_on_evidence {request : Repository.ReserveRequest} {w w' : World} {τ pre post : History}
    {q : Prog Call Answer _} {claim : Claim}
    (hrun : Run (exec fun _ _ => True) Interference (Manager.reconcileCreate request).run w τ q w')
    (hτ : τ = pre ++ ev :: post) (hconf : Confirms ev claim) :
    ∃ snapshot, lastSnapshot pre = some snapshot ∧
      (Evidence request snapshot claim ↔ ∀ c, reread pre = some c → matchesRequest request c = true) :=
  run_events (h := []) (reconcileCreate_backed rfl) hrun pre ev post hτ claim hconf

/-- The claim that an event confirms. -/
def confirmedClaim (ev : Event Call Answer World) : Option Claim :=
  ev.after.store.objects.find? fun claim => claim.status.phase == .confirmed &&
    ev.before.store.objects.all fun c => c.uid != claim.uid || c.status != claim.status

theorem confirms_of_confirmedClaim {claim : Claim} (h : confirmedClaim ev = some claim) : Confirms ev claim := by
  have hclaim := List.find?_some h
  simp only [and_eq_true, beq_iff_eq, List.all_eq_true, or_eq_true, bne_iff_ne] at hclaim
  refine ⟨List.mem_of_find?_eq_some h, hclaim.1, fun c hc huid => ?_⟩
  rcases hclaim.2 c hc with hne | hne
  · exact absurd huid hne
  · exact hne

/-- The history before the first confirming write. -/
def beforeConfirm (τ : History) : History := τ.takeWhile fun ev => !(confirmedClaim ev).isSome

/-- The claim that is confirmed first, and what was known then. -/
def confirmSummary (τ : History) : Option (Claim × Option Snapshot × Option Claim) :=
  (τ.find? fun ev => (confirmedClaim ev).isSome).bind fun ev => (confirmedClaim ev).map fun claim =>
    (claim, lastSnapshot (beforeConfirm τ), reread (beforeConfirm τ))

theorem confirm_of_summary {τ : History} {claim : Claim} {taken : Option Snapshot} {again : Option Claim}
    (h : confirmSummary τ = some (claim, taken, again)) :
    ∃ pre ev post, τ = pre ++ ev :: post ∧ Confirms ev claim ∧ lastSnapshot pre = taken ∧ reread pre = again := by
  unfold confirmSummary at h
  cases hev : τ.find? fun ev => (confirmedClaim ev).isSome with
  | none => simp [hev] at h
  | some ev =>
    rw [hev, bind_some] at h
    cases hclaim : confirmedClaim ev with
    | none => simp [hclaim] at h
    | some c =>
      simp only [hclaim, map_some, Option.some.injEq, Prod.mk.injEq] at h
      obtain ⟨rfl, rfl, rfl⟩ := h
      obtain ⟨post, hτ⟩ := split_first hev
      exact ⟨_, ev, post, hτ, confirms_of_confirmedClaim hclaim, rfl, rfl⟩

/-- The calls of a create that nothing disturbs. -/
def quietCreate : History := (runWith serve (Manager.reconcileCreate exampleRequest).run emptyWorld).1

/-- A create that nothing disturbs confirms its claim on evidence for it. -/
theorem confirmed_on_evidence_quiet :
    ∃ pre ev post claim snapshot, quietCreate = pre ++ ev :: post ∧ Confirms ev claim ∧
      lastSnapshot pre = some snapshot ∧ Evidence exampleRequest snapshot claim := by
  have hsome : (confirmSummary quietCreate).map (fun summary => summary.2.2.all (matchesRequest exampleRequest)) =
      some true := by
    decide +kernel
  obtain ⟨⟨claim, taken, again⟩, hsummary, hmatch⟩ := Option.map_eq_some_iff.1 hsome
  obtain ⟨pre, ev, post, hτ, hconf, -, hagain⟩ := confirm_of_summary hsummary
  obtain ⟨snapshot, htaken, hiff⟩ := confirmed_on_evidence (serve_run _ _) hτ hconf
  refine ⟨pre, ev, post, claim, snapshot, hτ, hconf, htaken, hiff.2 fun c hc => ?_⟩
  rw [hagain] at hc
  exact (all_eq_true _ _).1 hmatch c hc

/-- Another controller asks for the record with another TTL. -/
def greenRequest : Repository.ReserveRequest :=
  { exampleRequest with controllerID := "green", endpoint := { exampleRequest.endpoint with ttl := 60 } }

/-- The claim of the other controller. -/
def greenReservation : Claim :=
  Repository.newClaim ⟨"edge", "example.com", "app.example.com", "A", "192.0.2.1"⟩
    ((fingerprint "edge" greenRequest.endpoint).toOption.getD "") greenRequest

/-- The first claim is released and deleted, and the other controller reserves the record. -/
def recreated (w : World) : World :=
  match w.store.objects with
  | [] => w
  | c :: _ =>
    let released : World := { w with store := (w.store.update { c with finalizers := [] }).2 }
    let deleted : World := { w with store := (released.store.delete c.name w.store.next).2 }
    let created : World := { w with store := (deleted.store.create greenReservation {}).2 }
    { w with store := (created.store.updateStatus { greenReservation with
      resourceVersion := deleted.store.next, status := { phase := .reserved } }).2 }

theorem recreated_interference (w : World) : Relation.ReflTransGen Interference w (recreated w) := by
  unfold recreated
  split
  · exact .refl
  · rename_i c _ _
    have hreleased := Interference.update w { c with finalizers := [] }
    have hdeleted := Relation.ReflTransGen.tail (.single hreleased) (Interference.delete _ c.name w.store.next)
    have hcreated := hdeleted.tail (Interference.create _ greenReservation)
    exact hcreated.tail (Interference.updateStatus _ _)

/-- The create until its POST. -/
def untilPost : History × Prog Call Answer (Except OwnershipError Claim) × World :=
  runUntil serve isPost (Manager.reconcileCreate exampleRequest).run emptyWorld

/-- The create, during which the claim is deleted and reserved by the other controller. -/
def disturbedCreate : History := untilPost.1 ++ (runWith serve untilPost.2.1 (recreated untilPost.2.2)).1

/-- **The claim of another controller is confirmed**, although no row has its fingerprint: the claim
was replaced before the POST, and the row that was created for the first claim confirms it. -/
theorem confirmed_recreated_claim :
    ∃ q w', Run (exec fun _ _ => True) Interference (Manager.reconcileCreate exampleRequest).run emptyWorld
        disturbedCreate q w' ∧
      ∃ pre ev post claim snapshot, disturbedCreate = pre ++ ev :: post ∧ Confirms ev claim ∧
        lastSnapshot pre = some snapshot ∧ claim.spec.controllerID = "green" ∧
        ∀ row ∈ snapshot.records, fingerprint "edge" row ≠ .ok claim.spec.fingerprint := by
  have hserve : ∀ e w, exec (fun _ _ => True) e w (serve e w).1 (serve e w).2 :=
    fun e w => exec_mono (fun _ _ => trivial) (serve_exec e w)
  refine ⟨_, _, ((runUntil_run hserve isPost _ _).later (recreated_interference _)).append (serve_run _ _), ?_⟩
  have hsome : (confirmSummary disturbedCreate).map (fun summary => (summary.1.spec.controllerID,
      summary.2.1.map fun snapshot => snapshot.records.all fun row =>
        fingerprint "edge" row != .ok summary.1.spec.fingerprint)) = some ("green", some true) := by
    decide +kernel
  obtain ⟨⟨claim, taken, again⟩, hsummary, hfacts⟩ := Option.map_eq_some_iff.1 hsome
  obtain ⟨hctrl, htaken⟩ := Prod.mk.inj hfacts
  obtain ⟨snapshot, rfl, hrows⟩ := Option.map_eq_some_iff.1 htaken
  obtain ⟨pre, ev, post, hτ, hconf, hlast, -⟩ := confirm_of_summary hsummary
  refine ⟨pre, ev, post, claim, snapshot, hτ, hconf, hlast, hctrl, fun row hrow => ?_⟩
  simpa using List.all_eq_true.1 hrows row hrow

end FortigateDns
