import FortigateDns.Proof.ClaimLogic

/-!
# The life cycle of claims

Every ownership operation, run by any number of controllers in any interleaving, writes a
claim only as `Allowed`.
-/

namespace FortigateDns

open Go Conc Store

variable {s t : ClaimStore} {name targetName : String} {version : Nat} {c : Claim} {snapshot : Snapshot}

/-- How one call changes the claim store: not at all, by an allowed change of one claim, by a
new claim without a phase, or by a removal. -/
def Evolves (s t : ClaimStore) : Prop :=
  t = s ∨ (∃ c n, Replaced s t c n ∧ Allowed c n ∧ (Bound c → Bound n)) ∨
    (∃ n, Added s t n ∧ n.status = {}) ∨ ∃ c, Removed s t c

theorem Evolves.later (h : Evolves s t) : Later s t := by
  rcases h with rfl | ⟨c, n, h, -⟩ | ⟨n, h, -⟩ | ⟨c, h⟩
  · exact later_refl _
  · exact h.later
  · exact h.later
  · exact h.later

/-- The contract of every operation: the others only write claims with new versions. -/
def lifecycle : Contract Call Answer World where
  exec := exec fun _ _ => True
  Rely w w' := Later w.store w'.store
  Guar _ w _ w' := Evolves w.store w'.store

theorem lifecycle_discipline : Discipline lifecycle (fun _ _ => True) (fun _ _ _ => True) where
  exec_le _ _ _ _ h := h
  later _ _ h := h
  own_of_mem _ _ _ := trivial
  own_rely _ _ := stable_const True
  quiet _ _ _ := Or.inl rfl
  replace _ _ _ _ c n h hallow hbound := Or.inr (Or.inl ⟨c, n, h, hallow, hbound⟩)
  add _ _ _ _ n h hstatus := Or.inr (Or.inr (Or.inl ⟨n, h, hstatus⟩))

/-- A POST does not touch the claims. -/
theorem lifecycle_create (request : Repository.ReserveRequest) :
    CreateDiscipline lifecycle (fun _ _ => True) (fun _ _ _ => True) (fun _ _ => True) request where
  toDiscipline := lifecycle_discipline
  clear_rely _ := stable_const True
  clear_of_snapshot _ _ _ _ _ _ _ := trivial
  post w _ _ _ _ _ hexec := by
    rcases hexec with ⟨id, rfl⟩ | ⟨rfl, -⟩
    · exact Or.inl rfl
    · exact Or.inl rfl

variable {α : Type} {w : World}

theorem rebindConfirmed_safe {providerID revision : String} {endpoint : Endpoint} :
    Safe lifecycle (Repository.rebindConfirmed name version targetName endpoint providerID revision).run
      (Ensures fun _ _ => True) w := by
  unfold Repository.rebindConfirmed
  refine safe_seq (revalidateUnique_safe lifecycle_discipline) fun c w' hc => ?_
  split
  · exact safe_throw
  rename_i hphase
  have hphase : c.status.phase = .confirmed := not_not.1 hphase
  refine checked_then fun identity _ => ?_
  split
  · exact safe_throw
  refine checked_then fun print _ => ?_
  refine update_then lifecycle_discipline hc.1 rfl id ?_ ?_ fun _ _ => safe_throw
  · intro n hs ht
    refine ⟨⟨by rw [hs], by rw [hs], by rw [hs], fun _ hne => absurd (by rw [hs]) hne, ?_, ?_⟩, fun hb hn => ?_⟩
    · intro h; simp [hphase] at h
    · intro h; simp [hphase] at h
    · rw [hs]
      exact hb (ht ▸ hn)
  · intro n t hn _ _ ht
    have hconf : n.status.phase = .confirmed := by rw [ht, hphase]
    have hm : MayBecome n .confirmed := ⟨fun _ => Or.inr hconf, fun h => by simp [hconf] at h, fun _ => by simp⟩
    exact written_then (safe_mono (Ensures.mono fun _ _ _ => trivial)
      (transition_safe lifecycle_discipline hn.seen hm))

theorem repositoryAdopt_safe {request : Repository.AdoptionRequest} :
    Safe lifecycle (Repository.adopt request).run (Ensures fun _ _ => True) w := by
  unfold Repository.adopt
  refine checked_then fun identity _ => checked_then fun print _ => ?_
  split
  · exact safe_throw
  split
  · exact safe_throw
  split
  · exact safe_throw
  rename_i hid
  split
  · exact safe_throw
  refine safe_seq (list_safe lifecycle_discipline (K := fun _ _ => True) (stable_const True) trivial
    (fun _ => stable_const True) fun _ _ => trivial) fun claims w' _ => ?_
  split
  · refine create_then lifecycle_discipline ?_ fun _ _ => safe_throw
    intro n t hn _ hs ht
    have hm : MayBecome n .confirmed := by
      refine ⟨fun _ => Or.inl ?_, fun h => by simp [ht] at h, fun _ => by simp⟩
      rw [hs]
      exact fun h => hid (Or.inr h)
    exact written_then (safe_mono (Ensures.mono fun _ _ _ => trivial)
      (transition_safe lifecycle_discipline hn.seen hm))
  · exact safe_throw
  · exact safe_seq (markClaimsConflict_safe lifecycle_discipline _) fun _ _ _ => safe_throw

theorem outcome_evolves {result : Except StoreError α × ClaimStore} {r : Except StoreError α} {w' : World}
    (h : Evolves w.store result.2) (hout : Outcome w result r w') : Evolves w.store w'.store := by
  rcases hout with ⟨-, rfl⟩ | ⟨-, rfl | rfl⟩
  · exact h
  · exact Or.inl rfl
  · exact h

theorem evolves_of_eq {n : Claim} (h : Replaced s t c n) (hs : n.spec = c.spec) (ht : n.status = c.status) :
    Evolves s t := by
  refine Or.inr (Or.inl ⟨c, n, h, allowed_of_eq hs ht, fun hb hn => ?_⟩)
  rw [hs]
  exact hb (ht ▸ hn)

/-- The release of a finalizer keeps spec and status, or removes a claim that is being deleted. -/
theorem releaseFinalizer_safe :
    Safe lifecycle (Repository.releaseFinalizer name version).run (Ensures fun _ _ => True) w := by
  unfold Repository.releaseFinalizer
  refine safe_seq (revalidateUnique_safe lifecycle_discipline) fun c w' hc => ?_
  refine safe_then_call (seen_stable lifecycle_discipline c) hc.1.seen fun w'' hseen r t hexec => ?_
  have hrest : Safe lifecycle (written r).run (Ensures fun _ _ => True) t := by
    cases r with
    | error err => exact safe_throw
    | ok n => exact safe_pure (stable_const True) trivial
  refine ⟨outcome_evolves ?_ hexec, hrest⟩
  set released : Claim := { c with finalizers := c.finalizers.filter fun value => value ≠ claimFinalizer }
  have hv : released.resourceVersion = c.resourceVersion := rfl
  rcases update_cases hseen hv with ⟨err, hupd⟩ | ⟨hmem, hupd⟩
  · rw [hupd]
    exact Or.inl rfl
  · rw [hupd]
    rcases put_cases hmem released.finalizers released.spec c.status with
      ⟨hput, -⟩ | ⟨n, s, hput, hn, hrep | ⟨-, hrem, -⟩⟩
    · rw [hput]
      exact Or.inl rfl
    · rw [hput]
      exact evolves_of_eq hrep hn.spec hn.status
    · rw [hput]
      exact Or.inr (Or.inr (Or.inr ⟨c, hrem⟩))

theorem deleteClaim_safe :
    Safe lifecycle (Repository.deleteClaim name version).run (Ensures fun _ _ => True) w := by
  unfold Repository.deleteClaim
  split
  · exact safe_throw
  refine safe_then_call (stable_const True) trivial fun w' _ r t hexec => ⟨outcome_evolves ?_ hexec, ?_⟩
  · rcases delete_cases w'.store name version with ⟨r, hdel⟩ | ⟨r, s, c, hdel, hrem | ⟨n, hrep, hs, ht⟩⟩
    · rw [hdel]
      exact Or.inl rfl
    · rw [hdel]
      exact Or.inr (Or.inr (Or.inr ⟨c, hrem⟩))
    · rw [hdel]
      exact evolves_of_eq hrep hs ht
  · split
    · exact safe_pure (stable_const True) trivial
    · cases r with
      | error err => exact safe_throw
      | ok n => exact safe_pure (stable_const True) trivial

theorem authorizeMutation_safe {t : OperationType} {precondition : Manager.MutationPrecondition} :
    Safe lifecycle (Manager.authorizeMutation t precondition snapshot).run (Ensures fun _ _ => True) w := by
  unfold Manager.authorizeMutation
  split
  · exact safe_pure (stable_const True) trivial
  · exact safe_throw
  split
  · exact safe_throw
  split
  · exact safe_throw
  split
  · exact safe_throw
  split
  · exact safe_throw
  refine safe_seq (revalidateUnique_safe lifecycle_discipline) fun c w' hc => ?_
  split
  · exact safe_throw
  split
  · exact safe_throw
  split
  · split
    · exact safe_pure (stable_const True) trivial
    · exact safe_attempt_then (transition_conflict lifecycle_discipline) fun _ _ => safe_throw
  · exact safe_attempt_then (transition_conflict lifecycle_discipline) fun _ _ => safe_throw

theorem executeMutation_safe {operation : Operation} {precondition : Manager.MutationPrecondition} :
    Safe lifecycle (Manager.executeMutation operation.type precondition (do
      let result ← Act.call (Call.apply operation)
      checked result)).run (Ensures fun _ _ => True) w := by
  unfold Manager.executeMutation
  refine safe_then_call (stable_const True) trivial fun w' _ r t hexec => ?_
  obtain ⟨rfl, -⟩ := hexec
  refine ⟨Or.inl rfl, checked_then fun snapshot _ => safe_seq authorizeMutation_safe fun _ w' _ => ?_⟩
  refine safe_then_call (stable_const True) trivial fun w' _ canceled t hexec => ?_
  obtain rfl := hexec
  refine ⟨Or.inl rfl, ?_⟩
  split
  · exact safe_throw
  refine safe_then_call (stable_const True) trivial fun w' _ r t hexec => ⟨Or.inl hexec, ?_⟩
  cases r with
  | error err => exact safe_throw
  | ok u => exact safe_pure (stable_const True) trivial

theorem managerAdopt_safe {request : Repository.AdoptionRequest} :
    Safe lifecycle (Manager.adopt request).run (Ensures fun _ _ => True) w := by
  unfold Manager.adopt
  split
  · exact safe_throw
  refine safe_seq (validSnapshot_safe lifecycle_discipline (K := fun _ _ => True) (stable_const True) trivial
    (fun _ => stable_const True) fun _ _ _ _ => trivial) fun snapshot w' _ => ?_
  split
  · exact safe_throw
  refine checked_then fun found _ => ?_
  split
  · split
    · exact safe_throw
    · exact repositoryAdopt_safe
  · exact safe_throw

theorem failConflict_safe {revision : String} :
    Safe lifecycle (Manager.failConflict c revision).run (Ensures fun _ _ => True) w := by
  refine safe_seq (P := fun _ _ => True) (safe_mono ?_ (transition_conflict lifecycle_discipline))
    fun _ _ _ => safe_throw
  intro r t _
  cases r <;> trivial

theorem reconcileClaim_safe :
    Safe lifecycle (Manager.reconcileClaim name version targetName snapshot).run (Ensures fun _ _ => True) w := by
  unfold Manager.reconcileClaim
  split
  · exact safe_throw
  refine safe_seq (revalidateUnique_safe lifecycle_discipline) fun c w' hc => ?_
  simp only
  split
  · exact failConflict_safe
  split
  · split
    · exact safe_pure (stable_const True) trivial
    · -- every phase but a reservation may become orphaned
      rename_i hphase
      have hm : MayBecome c .orphaned := ⟨by simp, fun _ => by simp, fun h => absurd h hphase⟩
      exact safe_mono (Ensures.mono fun _ _ _ => trivial) (transition_safe lifecycle_discipline hc.1.seen hm)
  · split
    · exact failConflict_safe
    split
    · exact failConflict_safe
    · exact confirm_safe lifecycle_discipline

theorem releaseClaimFinalizer_safe :
    Safe lifecycle (Manager.releaseClaimFinalizer name version targetName snapshot).run
      (Ensures fun _ _ => True) w := by
  unfold Manager.releaseClaimFinalizer
  split
  · exact safe_throw
  refine safe_seq (revalidateUnique_safe lifecycle_discipline) fun c w' _ => ?_
  split
  · exact safe_throw
  split
  · exact safe_throw
  · exact releaseFinalizer_safe

theorem releaseAndDeleteClaim_safe :
    Safe lifecycle (Manager.releaseAndDeleteClaim name version targetName snapshot).run
      (Ensures fun _ _ => True) w :=
  safe_seq releaseClaimFinalizer_safe fun _ _ _ => deleteClaim_safe

/-- **Every operation keeps the contract.** -/
theorem ownershipProgram_safe {p : Prog Call Answer Unit} (h : OwnershipProgram p) :
    Safe lifecycle p (fun _ _ => True) w := by
  cases h with
  | reconcileCreate request => exact safe_discard (reconcileCreate_safe (lifecycle_create request))
  | authorizeMutation t precondition snapshot => exact safe_discard authorizeMutation_safe
  | executeMutation operation precondition => exact safe_discard executeMutation_safe
  | managerAdopt request => exact safe_discard managerAdopt_safe
  | reconcileClaim name version targetName snapshot => exact safe_discard reconcileClaim_safe
  | releaseClaimFinalizer name version targetName snapshot =>
    exact safe_discard releaseClaimFinalizer_safe
  | releaseAndDeleteClaim name version targetName snapshot =>
    exact safe_discard releaseAndDeleteClaim_safe
  | reserve request => exact safe_discard (reserve_safe lifecycle_discipline)
  | confirm name version providerID revision =>
    exact safe_discard (confirm_safe lifecycle_discipline)
  | adopt request => exact safe_discard repositoryAdopt_safe
  | rebindConfirmed name version targetName endpoint providerID revision =>
    exact safe_discard rebindConfirmed_safe

/-- Every confirmed claim is bound. -/
def AllBound (w : World) : Prop := ∀ c ∈ w.store.objects, Bound c

theorem Evolves.allBound {w' : World} (h : Evolves w.store w'.store) (hw : AllBound w) : AllBound w' := by
  intro x hx
  rcases h with h | ⟨c, n, h, -, hbound⟩ | ⟨n, h, hstatus⟩ | ⟨c, h⟩
  · exact hw x (h ▸ hx)
  · rcases (h.mem x).1 hx with rfl | ⟨hx, -⟩
    · exact hbound (hw c h.old)
    · exact hw x hx
  · rcases (h.mem x).1 hx with hx | rfl
    · exact hw x hx
    · intro hp
      simp [hstatus] at hp
  · exact hw x ((h.mem x).1 hx).1

/-- A claim before and after a change of the store. -/
theorem Evolves.allowed (h : Evolves s t) {c' : Claim} (hc : c ∈ s.objects) (hc' : c' ∈ t.objects)
    (huid : c'.uid = c.uid) : Allowed c c' := by
  have hsame : c' ∈ s.objects → Allowed c c' := by
    intro hold
    obtain rfl := eq_of_uid hold hc huid
    exact allowed_of_eq rfl rfl
  rcases h with rfl | ⟨o, n, h, hallow, -⟩ | ⟨n, h, -⟩ | ⟨o, h⟩
  · exact hsame hc'
  · rcases (h.mem c').1 hc' with rfl | ⟨hold, -⟩
    · obtain rfl := eq_of_uid hc h.old (huid.symm.trans h.uid)
      exact hallow
    · exact hsame hold
  · rcases (h.mem c').1 hc' with hold | rfl
    · exact hsame hold
    · -- UIDs are not used again
      have := (s.fresh c hc).2.2
      rw [h.uid] at huid
      omega
  · exact hsame ((h.mem c').1 hc').1

variable {ι : Type}

theorem ownership_agreement :
    Agreement (ownershipSystem ι) (fun _ => lifecycle.Guar) (fun _ => lifecycle.Rely) AllBound where
  guar_rely _ _ _ _ _ _ _ _ h := h.later
  env_rely _ w w' _ h := by
    show Later w.store w'.store
    rw [h]
    exact later_refl _
  guar_inv _ _ _ _ _ hw h := h.allBound hw
  env_inv w w' hw h := by
    intro x hx
    rw [h] at hx
    exact hw x hx
  programs_safe _ _ hp _ _ := safe_restrict (fun _ _ _ _ h => h.2) (ownershipProgram_safe hp)

variable [DecidableEq ι]

/-- A step of the system changes the store as an operation may. -/
theorem step_evolves {c c' : Configuration ι Call Answer World}
    (hsafe : SafeConfig (ownershipSystem ι) (fun _ => lifecycle.Guar) (fun _ => lifecycle.Rely) AllBound c)
    (h : Step (ownershipSystem ι) c c') : Evolves c.state.store c'.state.store := by
  rcases step_guaranteed hsafe h with h | h | ⟨i, e, r, h⟩
  · exact Or.inl (by rw [h])
  · exact Or.inl h
  · exact h

/-- What never changes about a claim, from `c` on: a claim with its UID has its target, record
and controller, and its UID is not given again. -/
structure Keeps (c : Claim) (t : ClaimStore) : Prop where
  used : c.uid < t.next
  same : ∀ c' ∈ t.objects, c'.uid = c.uid → c'.spec.targetRef = c.spec.targetRef ∧
    c'.spec.record = c.spec.record ∧ c'.spec.controllerID = c.spec.controllerID

theorem keeps_of_mem (hc : c ∈ s.objects) : Keeps c s :=
  ⟨(s.fresh c hc).2.2, fun c' hc' huid => by obtain rfl := eq_of_uid hc' hc huid; exact ⟨rfl, rfl, rfl⟩⟩

theorem Keeps.evolves (hk : Keeps c s) (h : Evolves s t) : Keeps c t := by
  refine ⟨lt_of_lt_of_le hk.used h.later.1, fun c' hc' huid => ?_⟩
  rcases h with rfl | ⟨o, n, h, hallow, -⟩ | ⟨n, h, -⟩ | ⟨o, h⟩
  · exact hk.same c' hc' huid
  · rcases (h.mem c').1 hc' with rfl | ⟨hold, -⟩
    · obtain ⟨h1, h2, h3⟩ := hk.same o h.old (h.uid.symm.trans huid)
      exact ⟨hallow.targetRef.trans h1, hallow.record.trans h2, hallow.controllerID.trans h3⟩
    · exact hk.same c' hold huid
  · rcases (h.mem c').1 hc' with hold | rfl
    · exact hk.same c' hold huid
    · have := hk.used
      rw [h.uid] at huid
      omega
  · exact hk.same c' ((h.mem c').1 hc').1 huid

theorem keeps_reachable {c₁ c₂ : Configuration ι Call Answer World}
    (hsafe : SafeConfig (ownershipSystem ι) (fun _ => lifecycle.Guar) (fun _ => lifecycle.Rely) AllBound c₁)
    (h : Reachable (ownershipSystem ι) c₁ c₂) (hc : c ∈ c₁.state.store.objects) :
    SafeConfig (ownershipSystem ι) (fun _ => lifecycle.Guar) (fun _ => lifecycle.Rely) AllBound c₂ ∧
      Keeps c c₂.state.store := by
  induction h with
  | refl => exact ⟨hsafe, keeps_of_mem hc⟩
  | tail _ hstep ih =>
    exact ⟨safeConfig_step ownership_agreement ih.1 hstep, ih.2.evolves (step_evolves ih.1 hstep)⟩

/-- **The state machine of claims.** Start any number of controllers on a store whose
confirmed claims are bound, such as an empty one. In every reachable state a confirmed claim
has a provider ID; every step changes a claim only as `Allowed`; and over whole runs its
target, record and controller stay. -/
theorem claim_lifecycle {w₀ : World} (h₀ : AllBound w₀) {c₁ : Configuration ι Call Answer World}
    (hreach : Reachable (ownershipSystem ι) (Configuration.idle w₀) c₁) :
    (∀ c ∈ c₁.state.store.objects, c.status.phase = .confirmed → c.spec.providerID ≠ "") ∧
      (∀ c₂, Step (ownershipSystem ι) c₁ c₂ → ∀ c ∈ c₁.state.store.objects, ∀ c' ∈ c₂.state.store.objects,
        c'.uid = c.uid → Allowed c c') ∧
      ∀ c₂, Reachable (ownershipSystem ι) c₁ c₂ → ∀ c ∈ c₁.state.store.objects, ∀ c' ∈ c₂.state.store.objects,
        c'.uid = c.uid → c'.spec.targetRef = c.spec.targetRef ∧ c'.spec.record = c.spec.record ∧
          c'.spec.controllerID = c.spec.controllerID := by
  have hsafe := reachable_safe ownership_agreement h₀ hreach
  refine ⟨fun c hc => hsafe.1 c hc, ?_, ?_⟩
  · intro c₂ hstep c hc c' hc' huid
    exact (step_evolves hsafe hstep).allowed hc hc' huid
  · intro c₂ hrun c hc c' hc' huid
    exact (keeps_reachable hsafe hrun hc).2.same c' hc' huid

/-- A request to create `app.example.com`. -/
def exampleRequest : Repository.ReserveRequest where
  requestNamespace := "dns"
  targetName := "edge"
  controllerID := "blue"
  endpoint := { dnsName := "app.example.com", recordType := "A", targets := ["192.0.2.1"], zone := "example.com" }
  sources := [⟨"v1", "Service", "apps", "app", "u-1"⟩]
  hasSnapshot := false

/-- A create confirms its claim, which is then bound to the new row. -/
theorem claim_lifecycle_create :
    ∃ c₁ : Configuration Bool Call Answer World,
      Reachable (ownershipSystem Bool) (Configuration.idle ⟨Store.empty, []⟩) c₁ ∧
      c₁.state.store.objects.map (fun c => (c.status.phase, c.spec.providerID)) = [(.confirmed, "1")] ∧
      ∀ c₂, Step (ownershipSystem Bool) c₁ c₂ → ∀ c ∈ c₁.state.store.objects,
        ∀ c' ∈ c₂.state.store.objects, c'.uid = c.uid → Allowed c c' := by
  have hstart : Reachable (ownershipSystem Bool) (Configuration.idle ⟨Store.empty, []⟩)
      ((Configuration.idle ⟨Store.empty, []⟩).start true _) :=
    start_reachable .refl rfl (OwnershipProgram.reconcileCreate exampleRequest)
  have hreach := hstart.trans (run_reachable
    (fun e w => exec_mono (fun _ _ => trivial) (serve_exec e w)) (fun _ => false) true _)
  have hempty : AllBound ⟨Store.empty, []⟩ := fun c hc => absurd hc (List.not_mem_nil)
  exact ⟨_, hreach, by decide +kernel, (claim_lifecycle hempty hreach).2.1⟩

end FortigateDns
