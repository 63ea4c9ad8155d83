import FortigateDns.Proof.ClaimLifecycle

/-!
# The two-phase create makes no duplicates

Controllers that reserve, relist, post, relist and confirm, in any interleaving and with any
crashes and lost answers. Exclusion comes from the claim: its name is a function of the record's
identity, names are unique in the store, and nothing in the protocol changes its controller. So
while a controller holds the claim of an identity, a snapshot without a row of the identity
stays true until that controller posts.
-/

namespace FortigateDns

open Go Conc Store List

variable {w w' : World}

/-- The identity is read off the normal form. -/
theorem identityFor_congr {t t' : String} {e e' : Endpoint} (ht : toLower (trimSpace t') = toLower (trimSpace t))
    (hname : e'.normalize.dnsName = e.normalize.dnsName)
    (htype : e'.normalize.recordType = e.normalize.recordType) (hzone : e'.normalize.zone = e.normalize.zone)
    (htargets : e'.normalize.targets = e.normalize.targets) : identityFor t' e' = identityFor t e := by
  unfold identityFor
  simp only [ht, hname, htype, hzone, htargets]

theorem normalize_withID (e : Endpoint) (id : String) :
    ({ e with providerID := id } : Endpoint).normalize = { e.normalize with providerID := id } := by
  simp only [Endpoint.normalize]

theorem identityFor_posted {t t' : String} {e : Endpoint} {identity : Identity} (id : String)
    (hfix : e.normalize.normalize = e.normalize) (h : identityFor t e = .ok identity)
    (ht : toLower (trimSpace t') = identity.targetName) :
    identityFor t' { e.normalize with providerID := id } = .ok identity := by
  rw [← h]
  refine identityFor_congr (ht.trans (identityFor_targetName h)) ?_ ?_ ?_ ?_ <;> rw [normalize_withID, hfix]

/-- A controller holds the claim with a name. -/
def HoldsClaim (name controllerID : String) (w : World) : Prop :=
  ∃ c ∈ w.store.objects, c.name = name ∧ c.spec.controllerID = controllerID

/-- A name has one holder. -/
theorem HoldsClaim.unique {name a b : String} (ha : HoldsClaim name a w) (hb : HoldsClaim name b w) : a = b := by
  obtain ⟨c, hc, hcn, rfl⟩ := ha
  obtain ⟨c', hc', hcn', rfl⟩ := hb
  rw [eq_of_name hc hc' (hcn.trans hcn'.symm)]

/-- Claims get new versions, and stay with their controllers. -/
structure Persists (s t : ClaimStore) : Prop where
  later : Later s t
  kept : ∀ c ∈ s.objects, ∃ c' ∈ t.objects, c'.name = c.name ∧ c'.spec.controllerID = c.spec.controllerID

theorem persists_refl (s : ClaimStore) : Persists s s := ⟨later_refl s, fun c hc => ⟨c, hc, rfl, rfl⟩⟩

theorem persists_replaced {s t : ClaimStore} {c n : Claim} (h : Replaced s t c n) (hallow : Allowed c n) :
    Persists s t := by
  refine ⟨h.later, fun x hx => ?_⟩
  by_cases hxc : x = c
  · subst hxc
    exact ⟨n, (h.mem n).2 (Or.inl rfl), h.name, hallow.controllerID⟩
  · exact ⟨x, (h.mem x).2 (Or.inr ⟨hx, hxc⟩), rfl, rfl⟩

theorem persists_added {s t : ClaimStore} {n : Claim} (h : Added s t n) : Persists s t :=
  ⟨h.later, fun x hx => ⟨x, (h.mem x).2 (Or.inl hx), rfl, rfl⟩⟩

theorem HoldsClaim.persists {name controllerID : String} (h : HoldsClaim name controllerID w)
    (hp : Persists w.store w'.store) : HoldsClaim name controllerID w' := by
  obtain ⟨c, hc, hname, hctrl⟩ := h
  obtain ⟨c', hc', hname', hctrl'⟩ := hp.kept c hc
  exact ⟨c', hc', hname'.trans hname, hctrl'.trans hctrl⟩

/-- No row of the device comes from a create of the identity. -/
def NoRow (identity : Identity) (w : World) : Prop := ∀ row ∈ w.rows, row.origin ≠ some identity

/-- A row has the identity it was posted under. -/
def RowOK (row : Row) : Prop :=
  ∀ identity, row.origin = some identity →
    ∀ t, toLower (trimSpace t) = identity.targetName → identityFor t row.record = .ok identity

/-- **The invariant**: every row is what it was posted as, and no identity has two. -/
structure NoDuplicates (w : World) : Prop where
  rows : ∀ row ∈ w.rows, RowOK row
  once : ∀ identity, (w.rows.filter fun row => row.origin = some identity).length ≤ 1

/-- What a controller promises: claims persist, and a row is added only under a claim that it
holds and when there is none. -/
structure Creates (me : String) (w w' : World) : Prop where
  claims : Persists w.store w'.store
  posted : w'.rows = w.rows ∨ ∃ identity row, HoldsClaim (claimName identity) me w ∧ NoRow identity w ∧
    row.origin = some identity ∧ RowOK row ∧ w'.rows = w.rows ++ [row]

/-- What a controller relies on: claims persist, and nobody else posts under a claim it holds. -/
structure Undisturbed (me : String) (w w' : World) : Prop where
  claims : Persists w.store w'.store
  noRow : ∀ identity, HoldsClaim (claimName identity) me w → NoRow identity w → NoRow identity w'

/-- The snapshots of a device with the invariant. -/
def AccurateOK (w : World) (snapshot : Snapshot) : Prop := Accurate w snapshot ∧ ∀ row ∈ w.rows, RowOK row

theorem Creates.undisturbed {me other : String} (h : Creates other w w') (hne : me ≠ other) :
    Undisturbed me w w' := by
  refine ⟨h.claims, fun identity hholds hno row hrow => ?_⟩
  rcases h.posted with hrows | ⟨identity', new, hother, -, horigin, -, hrows⟩
  · exact hno row (hrows ▸ hrow)
  · rw [hrows, mem_append, mem_singleton] at hrow
    rcases hrow with hrow | rfl
    · exact hno row hrow
    · -- the two would hold the claim of one identity
      rw [horigin]
      intro heq
      obtain rfl := Option.some.inj heq
      exact hne (hholds.unique hother)

theorem Creates.noDuplicates {me : String} (h : Creates me w w') (hw : NoDuplicates w) : NoDuplicates w' := by
  rcases h.posted with hrows | ⟨identity, new, -, hno, horigin, hok, hrows⟩
  · exact ⟨hrows ▸ hw.rows, hrows ▸ hw.once⟩
  · constructor
    · intro row hrow
      rw [hrows, mem_append, mem_singleton] at hrow
      rcases hrow with hrow | rfl
      · exact hw.rows row hrow
      · exact hok
    · intro identity'
      rw [hrows, filter_append, length_append]
      by_cases hid : identity' = identity
      · subst hid
        have hnone : w.rows.filter (fun row => row.origin = some identity') = [] :=
          filter_eq_nil_iff.2 fun row hrow => by simpa using hno row hrow
        rw [hnone]
        exact (Nat.zero_add _).le.trans (length_filter_le _ _)
      · have hnone : [new].filter (fun row => row.origin = some identity') = [] := by
          simp [horigin, Ne.symm hid]
        rw [hnone]
        exact hw.once identity'

section

variable {ι : Type} {controllerID : ι → String}

/-- An endpoint whose normal form is in normal form. -/
def Settled (endpoint : Endpoint) : Prop := endpoint.normalize.normalize = endpoint.normalize

/-- The contract of controller `i`. -/
def createContract (controllerID : ι → String) (i : ι) : Contract Call Answer World where
  exec := (createSystem controllerID Settled).execIn NoDuplicates
  Rely := Undisturbed (trimSpace (controllerID i))
  Guar _ w _ w' := Creates (trimSpace (controllerID i)) w w'

theorem create_discipline {i : ι} {request : Repository.ReserveRequest}
    (hctrl : request.controllerID = controllerID i) (hsettled : Settled request.endpoint) :
    CreateDiscipline (createContract controllerID i) AccurateOK HoldsClaim
      (fun identity w => HoldsClaim (claimName identity) (trimSpace (controllerID i)) w ∧
        NoRow identity w) request where
  exec_le _ _ _ _ h := exec_mono (fun _ hacc => ⟨hacc, h.1.rows⟩) h.2
  later _ _ h := h.claims.later
  own_of_mem _ c hc := ⟨c, hc, rfl, rfl⟩
  own_rely _ _ _ _ h hown := hown.persists h.claims
  quiet _ w _ := ⟨persists_refl _, Or.inl rfl⟩
  replace _ _ _ _ _ _ h hallow _ := ⟨persists_replaced h hallow, Or.inl rfl⟩
  add _ _ _ _ _ h _ := ⟨persists_added h, Or.inl rfl⟩
  clear_rely identity _ _ h hclear := ⟨hclear.1.persists h.claims, h.noRow identity hclear.1 hclear.2⟩
  clear_of_snapshot w snapshot identity hid hsnap hown hnone := by
    refine ⟨hctrl ▸ hown, fun row hrow horigin => ?_⟩
    -- such a row would be in the snapshot, with the identity
    have hrec : row.record ∈ snapshot.records := by
      rw [hsnap.1]
      exact mem_map_of_mem hrow
    exact hnone _ hrec (hsnap.2 row hrow identity horigin _ (identityFor_targetName hid).symm)
  post w r w' identity hid hclear hexec := by
    rcases hexec with ⟨id, rfl⟩ | ⟨rfl, -⟩
    · refine ⟨persists_refl _, Or.inr ⟨identity, _, hclear.1, hclear.2, rfl, ?_, rfl⟩⟩
      intro identity' horigin t ht
      obtain rfl := Option.some.inj horigin
      exact identityFor_posted id hsettled hid ht
    · exact ⟨persists_refl _, Or.inl rfl⟩

/-- What every controller promises and may rely on. -/
theorem create_agreement (hids : Function.Injective fun i => trimSpace (controllerID i)) :
    Agreement (createSystem controllerID Settled) (fun i => (createContract controllerID i).Guar)
      (fun i => (createContract controllerID i).Rely) NoDuplicates where
  guar_rely _ _ hij _ _ _ _ _ h := h.undisturbed fun heq => hij (hids heq)
  env_rely i w w' _ h := by
    refine ⟨h.1 ▸ persists_refl _, fun identity _ hno row hrow => hno row (h.2.subset hrow)⟩
  guar_inv _ _ _ _ _ hw h := h.noDuplicates hw
  env_inv w w' hw h := by
    refine ⟨fun row hrow => hw.rows row (h.2.subset hrow), fun identity => ?_⟩
    exact ((h.2.filter _).length_le).trans (hw.once identity)
  programs_safe i p hp s _ := by
    obtain ⟨request, hctrl, hsettled, rfl⟩ := hp
    exact safe_discard (reconcileCreate_safe (create_discipline hctrl hsettled))

variable [DecidableEq ι]

/-- **The two-phase create makes no duplicates.** Controllers whose trimmed IDs differ create
records whose normal form is settled, in any interleaving, with any crashes, lost answers and
deletions of rows. In every reachable state at most one row of an identity comes from them. -/
theorem create_never_duplicates (hids : Function.Injective fun i => trimSpace (controllerID i)) {w₀ : World}
    (h₀ : ∀ row ∈ w₀.rows, row.origin = none) {c : Configuration ι Call Answer World}
    (hreach : Reachable (createSystem controllerID Settled) (Configuration.idle w₀) c) (identity : Identity) :
    (c.state.rows.filter fun row => row.origin = some identity).length ≤ 1 := by
  have hinv : NoDuplicates w₀ := by
    refine ⟨fun row hrow identity horigin => ?_, fun identity => ?_⟩
    · simp [h₀ row hrow] at horigin
    · have hnone : w₀.rows.filter (fun row => row.origin = some identity) = [] :=
        filter_eq_nil_iff.2 fun row hrow => by simp [h₀ row hrow]
      simp [hnone]
  exact (reachable_safe (create_agreement hids) hinv hreach).1.once identity

end

/-- The create of the example record by a controller. -/
def exampleCreate (controllerID : String) (endpoint : Endpoint) : Prog Call Answer Unit :=
  (Manager.reconcileCreate { exampleRequest with controllerID := controllerID, endpoint := endpoint }).run.discard

/-- The call creates a row. -/
def isPost : Call → Bool
  | .post _ _ => true
  | _ => false

/-- A device without rows and a store without claims. -/
def emptyWorld : World := ⟨Store.empty, []⟩

/-- Two controllers create one record: the first is about to post when the second runs. -/
def race (controllerID : Bool → String) : Configuration Bool Call Answer World :=
  let first := ((Configuration.idle emptyWorld).start true
    (exampleCreate (controllerID true) exampleRequest.endpoint)).run
    serve isPost true
  let second := (first.start false (exampleCreate (controllerID false) exampleRequest.endpoint)).run
    serve (fun _ => false) false
  second.run serve (fun _ => false) true

/-- One controller creates a record, and once more. -/
def again (controllerID : String) (endpoint : Endpoint) : Configuration Unit Call Answer World :=
  let once := ((Configuration.idle emptyWorld).start () (exampleCreate controllerID endpoint)).run serve
    (fun _ => false) ()
  (once.start () (exampleCreate controllerID endpoint)).run serve (fun _ => false) ()

theorem example_settled : Settled exampleRequest.endpoint := by
  unfold Settled
  decide +kernel

theorem race_reachable (controllerID : Bool → String) :
    Reachable (createSystem controllerID Settled) (Configuration.idle emptyWorld) (race controllerID) := by
  have hprog : ∀ b, (createSystem controllerID Settled).programs b
      (exampleCreate (controllerID b) exampleRequest.endpoint) :=
    fun b => ⟨{ exampleRequest with controllerID := controllerID b }, rfl, example_settled, rfl⟩
  unfold race
  refine Relation.ReflTransGen.trans ?_ (run_reachable serve_exec _ true _)
  refine Relation.ReflTransGen.trans (start_reachable ?_ ?_ (hprog false)) (run_reachable serve_exec _ false _)
  · exact (start_reachable .refl (by simp [Configuration.idle]) (hprog true)).trans
      (run_reachable serve_exec _ true _)
  · simp [Configuration.run, Configuration.start, Configuration.idle]

/-- The second controller finds the claim of the first. -/
theorem create_never_duplicates_race :
    (race fun b => if b then "blue" else "green").state.rows.map (fun row => row.record.dnsName) =
        ["app.example.com"] ∧
      ∀ identity, ((race fun b => if b then "blue" else "green").state.rows.filter
        fun row => row.origin = some identity).length ≤ 1 := by
  have hids : Function.Injective fun b : Bool => trimSpace (if b then "blue" else "green") := by
    unfold Function.Injective
    decide +kernel
  exact ⟨by decide +kernel,
    create_never_duplicates hids (fun _ h => absurd h not_mem_nil) (race_reachable _)⟩

theorem again_reachable (controllerID : String) (endpoint : Endpoint) :
    Reachable (createSystem (fun _ : Unit => controllerID) fun _ => True) (Configuration.idle emptyWorld)
      (again controllerID endpoint) := by
  have hprog : (createSystem (fun _ : Unit => controllerID) fun _ => True).programs ()
      (exampleCreate controllerID endpoint) :=
    ⟨{ exampleRequest with controllerID := controllerID, endpoint := endpoint }, rfl, trivial, rfl⟩
  unfold again
  refine Relation.ReflTransGen.trans (start_reachable ?_ ?_ hprog) (run_reachable serve_exec _ () _)
  · exact (start_reachable .refl rfl hprog).trans (run_reachable serve_exec _ () _)
  · simp [Configuration.run, runTo_end]

/-- A name with two dots at the end, of which normalizing takes one. -/
def dottedEndpoint : Endpoint := { exampleRequest.endpoint with dnsName := "app.example.com.." }

/-- Two controller IDs that differ in white space. -/
def spacedIDs (b : Bool) : String := if b then "blue" else "blue "

/-- **Duplicates.** Controller IDs that differ only in white space name one controller, and a
row whose name is not in normal form is not recognized by the next create. -/
theorem create_duplicates :
    (Function.Injective spacedIDs ∧
      ∃ c, Reachable (createSystem spacedIDs Settled) (Configuration.idle emptyWorld) c ∧
        (c.state.rows.filter fun row => row.origin =
          some ⟨"edge", "example.com", "app.example.com", "A", "192.0.2.1"⟩).length = 2) ∧
    ∃ c, Reachable (createSystem (fun _ : Unit => "blue") fun _ => True) (Configuration.idle emptyWorld) c ∧
      (c.state.rows.filter fun row => row.origin =
        some ⟨"edge", "example.com", "app.example.com.", "A", "192.0.2.1"⟩).length = 2 := by
  have hids : Function.Injective spacedIDs := by
    unfold Function.Injective
    decide +kernel
  exact ⟨⟨hids, _, race_reachable _, by decide +kernel⟩,
    _, again_reachable "blue" dottedEndpoint, by decide +kernel⟩

end FortigateDns
