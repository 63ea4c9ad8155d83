import FortigateDns.Proof.Resources

/-!
# The endpoint budget of a pass

A pass without cancellation processes the resources that its lists answer, one after the other,
each with the budget that the ones before it have left.

* `passListed`, `Follows`: the resources of a pass, and the pass as a walk along them.
-/

namespace FortigateDns.Source

open Go List
open Policy (Labels)

variable {rt : SourceRuntime} {opts : Options} {ref : SourceRef} {r : Result} {ctx : Context} {b : EndpointBudget}
  {size : Nat} {source : String}
variable {d' : Discovered}

theorem Charged.congr {r r' : Result} {d : Discovered} (h : Charged b size source r d)
    (hr : r.endpoints = r'.endpoints) : Charged b size source r' d :=
  ⟨h.perResource, hr ▸ h.spent, hr ▸ h.rejected⟩

theorem Charged.agrees {d : Discovered} (h : Charged b size source r d)
    (hendpoints : d'.result.endpoints = d.result.endpoints)
    (hmarks : d'.result.incompleteSources = d.result.incompleteSources) (hbudget : d'.budget = d.budget) :
    Charged b size source r d' := by
  refine ⟨by rw [hbudget]; exact h.perResource, by rw [hendpoints, hbudget]; exact h.spent, fun hover => ?_⟩
  unfold Result.sourceComplete
  rw [hendpoints, hbudget, hmarks]
  exact h.rejected hover

theorem describe_result (d : Discovered) (ref : SourceRef) (labels annotations : Labels) :
    (d.describe ref labels annotations).result.endpoints = d.result.endpoints ∧
      (d.describe ref labels annotations).result.incompleteSources = d.result.incompleteSources ∧
      (d.describe ref labels annotations).budget = d.budget ∧ (d.describe ref labels annotations).err = d.err ∧
      (d.describe ref labels annotations).ctx = d.ctx := by
  unfold Discovered.describe
  split <;> exact ⟨rfl, rfl, rfl, rfl, rfl⟩

theorem Charged.describe {d : Discovered} (h : Charged b size source r d) (ref : SourceRef)
    (labels annotations : Labels) : Charged b size source r (d.describe ref labels annotations) :=
  have ⟨hendpoints, hmarks, hbudget, _, _⟩ := describe_result d ref labels annotations
  h.agrees hendpoints hmarks hbudget

/-- A resource that is skipped has offered nothing. -/
theorem charged_skipped (hb : b.Solvent) {d : Discovered} (hbudget : d.budget = b)
    (hendpoints : d.result.endpoints = []) (hsize : size = 0) : Charged b size source {} d :=
  charged_nothing hb hbudget hendpoints fun h => absurd (hsize ▸ h) (not_exceeded_zero hb)

theorem offerSize_no_hosts (targets : List String) : offerSize rt opts [] targets = 0 := Nat.zero_mul _

theorem offerSize_no_targets (hosts : List String) : offerSize rt opts hosts [] = 0 := Nat.mul_zero _

theorem PublishesOffer.charged (hb : b.Solvent) (hs : SourceName source) {offer : Offer} {d : Discovered}
    (h : PublishesOffer rt ctx opts b source ref offer d) : Charged b (offer.size rt opts) source {} d := by
  unfold Offer.size
  rcases h with ⟨hnone, hagree⟩ | ⟨r, hr, ⟨hnone, hagree⟩ | hagree⟩
  · refine charged_skipped hb hagree.budget hagree.result.endpoints ?_
    rw [hnone, offerSize_no_hosts]
  · refine charged_skipped hb hagree.budget (hagree.result.endpoints.trans hr.endpoints) ?_
    rw [hnone, offerSize_no_targets]
  · have happend := appendSource_charged rt opts ref hb hs ctx r offer.hosts offer.targets offer.ttl
    exact (happend.congr hr.endpoints).agrees hagree.result.endpoints
      hagree.result.incompleteSources hagree.budget

/-- The invariant of staging: the copy of the budget stays within its limit, and the endpoints so
far within what was taken from it. -/
structure Staged (limit : Int) (r : Result) (staged : EndpointBudget) : Prop where
  perResource : staged.perResource = limit
  remaining : 0 ≤ staged.remaining
  taken : (r.endpoints.length : Int) ≤ limit - staged.remaining

theorem stageHosts_spent (rt : SourceRuntime) (opts : Options) (ref : SourceRef)
    (targetsByHost : GoMap GatewayAddressTargets) {limit : Int} (hlimit : 0 ≤ limit)
    (hosts : List String) (r : Result) (staged : EndpointBudget) (ctx : Context) (h : Staged limit r staged) :
    let d := stageHosts rt opts ref targetsByHost b limit hosts r staged ctx
    d.budget.perResource = b.perResource ∧ ∃ spent : Nat, d.result.endpoints.length ≤ spent ∧
      d.budget.remaining = b.remaining - spent ∧ (spent : Int) ≤ limit := by
  induction hosts generalizing r staged ctx with
  | nil =>
    -- the copy is committed
    have hspent : ((limit - staged.remaining).toNat : Int) = limit - staged.remaining :=
      Int.toNat_of_nonneg (by have := h.taken; omega)
    refine ⟨rfl, (limit - staged.remaining).toNat, ?_, ?_, ?_⟩
    · have := h.taken
      simp only [stageHosts]
      omega
    · simp only [stageHosts]
      rw [hspent]
    · have := h.remaining
      omega
  | cons host hosts ih =>
    have hsolvent : staged.Solvent := ⟨h.remaining, h.perResource ▸ hlimit⟩
    have hcharged := appendSource_charged rt opts ref hsolvent sourceName_gateway ctx r [host]
      (targetsOf targetsByHost host) opts.defaultTTL
    unfold stageHosts
    dsimp only
    split
    · exact ⟨rfl, 0, Nat.le_refl 0, by simp, hlimit⟩
    · obtain ⟨spent, more, hendpoints, hmore, hremaining, -, hfits⟩ := hcharged.spent
      refine ih _ _ _ ⟨hcharged.perResource.trans h.perResource, ?_, ?_⟩
      · rw [hremaining]
        omega
      · have htaken := h.taken
        rw [hendpoints, hremaining, length_append]
        push_cast
        omega

theorem publishRoute_charged (hb : b.Solvent) (route : HTTPRoute) (gateways : GoMap Gateway) :
    Charged b (routeExpansion rt opts route.ref (route.served rt opts gateways)
        (sortStrings (route.served rt opts gateways).keys)) sourceGateway {}
      (publishRoute rt ctx route gateways (uniqueSorted route.hostnames) opts b) := by
  have hmarks := targetsForHTTPRoute_marks rt opts route gateways (acceptedParentRefs route)
    (uniqueSorted route.hostnames) {}
  unfold publishRoute
  dsimp only
  change Charged b (routeExpansion rt opts route.ref (route.served rt opts gateways) _) _ _
    (if _ < (routeExpansion rt opts route.ref (route.served rt opts gateways) _ : Int) then _ else _)
  split
  case isTrue =>
    have hreport := onlyEvents_addEvent ((targetsForHTTPRoute rt route gateways (acceptedParentRefs route)
      (uniqueSorted route.hostnames) opts {}).2.markIncomplete sourceGateway) route.ref ""
    refine charged_nothing hb ?_ ?_ fun _ => ?_ <;> dsimp only
    · rw [(hreport _).endpoints, markIncomplete_endpoints]
      exact hmarks.endpoints
    · rw [← Bool.not_eq_true, sourceComplete_iff sourceName_gateway, (hreport _).incompleteSources,
        markIncomplete_sources sourceName_gateway]
      simp
  case isFalse hfits =>
    have hstart : Staged (min b.perResource b.remaining)
        (targetsForHTTPRoute rt route gateways (acceptedParentRefs route)
          (uniqueSorted route.hostnames) opts {}).2
        ⟨min b.perResource b.remaining, min b.perResource b.remaining⟩ := by
      refine ⟨rfl, le_min hb.perResource hb.remaining, ?_⟩
      rw [hmarks.endpoints]
      simp
    obtain ⟨hper, spent, hlength, hremaining, hspent⟩ := stageHosts_spent rt opts route.ref
      (route.served rt opts gateways) (le_min hb.perResource hb.remaining)
        (sortStrings (route.served rt opts gateways).keys)
      _ _ ctx hstart
    refine ⟨hper, ⟨spent, _, rfl, hlength, hremaining, ?_, ?_⟩, fun hover => absurd ?_ hfits⟩
    · exact hspent.trans (min_le_left _ _)
    · exact hspent.trans (min_le_right _ _)
    · exact min_lt_iff.2 hover

/-- A resource out of scope is skipped. -/
theorem process_out_of_scope (resource : Resource) (h : resource.inScope opts = false) :
    resource.process rt ctx opts b = { budget := b, ctx := ctx } := by
  have hor : ∀ {p q : Bool}, (p && q) = false → p = false ∨ q = false := fun h => Bool.and_eq_false_iff.1 h
  cases resource with
  | service s slices => exact if_pos (hor h)
  | ingress i => exact if_pos (hor h)
  | gateway g => exact if_pos (hor h)
  | route r gateways => exact if_pos (hor h)

theorem sourceName_source (resource : Resource) : SourceName resource.source := by
  cases resource with
  | service s slices => exact sourceName_service
  | ingress i => exact sourceName_ingress
  | gateway g => exact sourceName_gateway
  | route r gateways => exact sourceName_gateway

/-- **A resource is charged for what it publishes.** -/
theorem process_charged (rt : SourceRuntime) (opts : Options) (hb : b.Solvent) (ctx : Context)
    (resource : Resource) :
    Charged b (resource.expansion rt opts) resource.source {} (resource.process rt ctx opts b) := by
  by_cases hscope : resource.inScope opts = true
  swap
  · rw [process_out_of_scope resource (Bool.eq_false_iff.2 hscope)]
    refine charged_skipped hb rfl rfl ?_
    unfold Resource.expansion
    rw [if_pos (Bool.eq_false_iff.2 hscope)]
  obtain ⟨d, labels, annotations, hd, heq⟩ := process_handled rt ctx b hscope
  rw [heq]
  refine Charged.describe ?_ _ labels annotations
  have hin : ¬ resource.inScope opts = false := by simpa using hscope
  cases hd with
  | offered _ _ hexpansion h =>
    rw [hexpansion]
    exact h.charged hb (sourceName_source resource)
  | skipped hpublished h =>
    refine charged_skipped hb h.budget h.endpoints ?_
    unfold Resource.expansion
    rw [if_neg hin]
    dsimp only
    rw [hpublished]
    rfl
  | staged hpublished =>
    unfold Resource.expansion
    rw [if_neg hin]
    dsimp only
    rw [if_pos hpublished]
    exact publishRoute_charged hb _ _

theorem appendSource_live (rt : SourceRuntime) (opts : Options) (ref : SourceRef) (source : String) (r : Result)
    (hosts targets : List String) (ttl : Int) :
    (b.appendSource rt none r opts source ref hosts targets ttl).err = none ∧
      (b.appendSource rt none r opts source ref hosts targets ttl).ctx = none := by
  unfold EndpointBudget.appendSource
  dsimp only [Context.err]
  rw [if_neg Bool.false_ne_true]
  split
  · exact ⟨rfl, rfl⟩
  · obtain ⟨herr, hctx, -⟩ := appendHosts_live opts ref source (uniqueSorted targets) ttl
      { b with remaining := b.remaining - (publishableHosts rt r opts ref hosts).2.length *
        (uniqueSorted targets).length }
      (publishableHosts rt r opts ref hosts).2 (publishableHosts rt r opts ref hosts).1
    exact ⟨herr, hctx⟩

theorem PublishesOffer.live {offer : Offer} {d : Discovered}
    (h : PublishesOffer rt none opts b source ref offer d) : d.err = none ∧ d.ctx = none := by
  rcases h with ⟨-, hagree⟩ | ⟨r, -, ⟨-, hagree⟩ | hagree⟩
  · exact ⟨hagree.err, hagree.ctx⟩
  · exact ⟨hagree.err, hagree.ctx⟩
  · rw [hagree.err, hagree.ctx]
    exact appendSource_live _ _ _ _ r _ _ _

theorem stageHosts_live (targetsByHost : GoMap GatewayAddressTargets) (limit : Int) (hosts : List String)
    (r : Result) (staged : EndpointBudget) :
    (stageHosts rt opts ref targetsByHost b limit hosts r staged none).err = none ∧
      (stageHosts rt opts ref targetsByHost b limit hosts r staged none).ctx = none := by
  induction hosts generalizing r staged with
  | nil =>
    unfold stageHosts
    exact ⟨rfl, rfl⟩
  | cons host hosts ih =>
    obtain ⟨herr, hctx⟩ := appendSource_live (b := staged) rt opts ref sourceGateway r
      [host] (targetsOf targetsByHost host) opts.defaultTTL
    unfold stageHosts
    dsimp only
    split
    · rw [herr, hctx]
      exact ⟨rfl, rfl⟩
    · rw [hctx]
      exact ih _ _

/-- A live context stays alive, and processing a resource does not fail. -/
theorem process_live (rt : SourceRuntime) (opts : Options) (resource : Resource) :
    (resource.process rt none opts b).err = none ∧ (resource.process rt none opts b).ctx = none := by
  by_cases hscope : resource.inScope opts = true
  swap
  · rw [process_out_of_scope resource (Bool.eq_false_iff.2 hscope)]
    exact ⟨rfl, rfl⟩
  obtain ⟨d, labels, annotations, hd, heq⟩ := process_handled rt none b hscope
  obtain ⟨-, -, -, herr, hctx⟩ := describe_result d resource.sourceRef labels annotations
  rw [heq, herr, hctx]
  cases hd with
  | offered _ _ _ h => exact h.live
  | skipped _ h => exact ⟨h.err, h.ctx⟩
  | staged _ =>
    unfold publishRoute
    dsimp only
    split
    · exact ⟨rfl, rfl⟩
    · exact stageHosts_live _ _ _ _ _

/-- The resources that lists have answered, until one of them failed. -/
structure Listed where
  resources : List Resource := []
  err : Option DiscoveryError := none

/-- An error ends the listing. -/
def Listed.andThen (l l' : Listed) : Listed := if l.err.isSome then l else ⟨l.resources ++ l'.resources, l'.err⟩

/-- The Services of a namespace, with their EndpointSlices. -/
def servicesListed (rt : SourceRuntime) (clients : KubernetesClients) (opts : Options)
    (objectNamespace : String) : Listed :=
  if !opts.sourceEnabled sourceService then {}
  else
    match clients.services objectNamespace with
    | .error err => { err := some err }
    | .ok services =>
      let slices := (discoverSlices rt clients opts objectNamespace services {}).2
      { resources := services.map fun s => .service s (indexEndpointSlices slices s.name) }

/-- The Ingresses of a namespace. -/
def ingressesListed (clients : KubernetesClients) (opts : Options) (objectNamespace : String) : Listed :=
  if !opts.sourceEnabled sourceIngress then {}
  else
    match clients.ingresses objectNamespace with
    | .error err => { err := some err }
    | .ok ingresses => { resources := ingresses.map .ingress }

/-- The Services and Ingresses of all namespaces. -/
def namespacesListed (rt : SourceRuntime) (clients : KubernetesClients) (opts : Options) : List String → Listed
  | [] => {}
  | ns :: rest =>
    ((servicesListed rt clients opts ns).andThen (ingressesListed clients opts ns)).andThen
      (namespacesListed rt clients opts rest)

/-- The Gateways, and the map of them if none of the lists failed. -/
def gatewaysListed (clients : KubernetesClients) : List String → GoMap Gateway → Listed × Option (GoMap Gateway)
  | [], gateways => ({}, some gateways)
  | ns :: rest, gateways =>
    match clients.gateways ns with
    | .error .unavailable => ({}, none)
    | .error err => ({ err := some err }, none)
    | .ok listed =>
      let (later, found) := gatewaysListed clients rest
        (listed.foldl (fun m g => GoMap.set m (gatewayMapKey g.objectNamespace g.name) g) gateways)
      ((Listed.mk (listed.map .gateway) none).andThen later, found)

/-- The Gateways and routes. -/
def gatewaySourceListed (clients : KubernetesClients) (opts : Options) : Listed :=
  match discoverHTTPRoutes clients (namespacesForList opts.namespaces) with
  | .error err => { err := some err }
  | .ok none => {}
  | .ok (some routes) =>
    match gatewaysListed clients (gatewayNamespacesForList opts routes) ∅ with
    | (listed, none) => listed
    | (listed, some gateways) => listed.andThen { resources := routes.map (.route · gateways) }

/-- **The resources that a pass processes**, in their order. -/
def passListed (rt : SourceRuntime) (clients : KubernetesClients) (opts : Options) : Listed :=
  (namespacesListed rt clients opts (namespacesForList opts.namespaces)).andThen
    (if opts.sourceEnabled sourceGateway then gatewaySourceListed clients opts else {})

/-- A resource and the budget it finds. -/
structure Charge where
  before : EndpointBudget
  resource : Resource

/-- The resource processed with the budget that is left. -/
def Charge.outcome (rt : SourceRuntime) (opts : Options) (c : Charge) : Discovered :=
  c.resource.process rt none opts c.before

/-- Every resource finds the budget that the one before it has left. -/
def charges (rt : SourceRuntime) (opts : Options) : EndpointBudget → List Resource → List Charge
  | _, [] => []
  | b, resource :: rest => ⟨b, resource⟩ :: charges rt opts (resource.process rt none opts b).budget rest

/-- The budget that is left after the resources. -/
def balance (rt : SourceRuntime) (opts : Options) (b : EndpointBudget) (resources : List Resource) :
    EndpointBudget :=
  resources.foldl (fun b resource => (resource.process rt none opts b).budget) b

/-- The endpoints that the resources publish. -/
def publication (rt : SourceRuntime) (opts : Options) (b : EndpointBudget) (resources : List Resource) :
    List Endpoint :=
  (charges rt opts b resources).flatMap fun c => (c.outcome rt opts).result.endpoints

theorem charges_append (b : EndpointBudget) (l l' : List Resource) :
    charges rt opts b (l ++ l') = charges rt opts b l ++ charges rt opts (balance rt opts b l) l' := by
  induction l generalizing b with
  | nil => rfl
  | cons resource l ih =>
    rw [cons_append, charges, charges, ih, cons_append]
    rfl

/-- **A part of a pass walks along the resources of its lists.** -/
structure Follows (rt : SourceRuntime) (opts : Options) (d : Discovered) (listed : Listed)
    (d' : Discovered) : Prop where
  ctx : d'.ctx = none
  err : d'.err = listed.err
  budget : d'.budget = balance rt opts d.budget listed.resources
  endpoints : d'.result.endpoints = d.result.endpoints ++ publication rt opts d.budget listed.resources
  kept : d.result.incompleteSources ⊆ d'.result.incompleteSources
  marked : ∀ c ∈ charges rt opts d.budget listed.resources, ∀ source, SourceName source →
    source ∈ (c.outcome rt opts).result.incompleteSources → source ∈ d'.result.incompleteSources

theorem publication_append (b : EndpointBudget) (l l' : List Resource) :
    publication rt opts b (l ++ l') = publication rt opts b l ++ publication rt opts
      (balance rt opts b l) l' := by
  unfold publication
  rw [charges_append, flatMap_append]

/-- A part that only marks sources processes nothing. -/
theorem follows_nothing (rt : SourceRuntime) (opts : Options) (d d' : Discovered) (hctx : d'.ctx = none)
    (hbudget : d'.budget = d.budget) (hmarks : OnlyMarks d.result d'.result) :
    Follows rt opts d { err := d'.err } d' where
  ctx := hctx
  err := rfl
  budget := hbudget
  endpoints := hmarks.endpoints.trans (append_nil _).symm
  kept := hmarks.incompleteSources
  marked _ hc := absurd hc not_mem_nil

theorem follows_marked {d : Discovered} (hctx : d.ctx = none) (herr : d.err = none) {r : Result}
    (hmarks : OnlyMarks d.result r) : Follows rt opts d {} { d with result := r } := by
  have h := follows_nothing rt opts d { d with result := r } hctx rfl hmarks
  dsimp only at h
  rw [herr] at h ⊢
  exact h

theorem follows_refl {d : Discovered} (hctx : d.ctx = none) (herr : d.err = none) : Follows rt opts d {} d :=
  follows_marked hctx herr (OnlyEvents.refl d.result).onlyMarks

/-- A list request fails. -/
theorem follows_failed (rt : SourceRuntime) (opts : Options) {d : Discovered} (hctx : d.ctx = none)
    (err : DiscoveryError) : Follows rt opts d { err := some err } { d with err := some err } :=
  follows_nothing rt opts d { d with err := some err } hctx rfl (OnlyEvents.refl d.result).onlyMarks

theorem Follows.trans {d d'' : Discovered} {l l' : Listed} (h : Follows rt opts d l d') (hl : l.err = none)
    (h' : Follows rt opts d' l' d'') : Follows rt opts d (l.andThen l') d'' := by
  have hand : l.andThen l' = ⟨l.resources ++ l'.resources, l'.err⟩ := by
    unfold Listed.andThen
    rw [hl]
    rfl
  have hbalance : balance rt opts d.budget (l.resources ++ l'.resources) = balance rt opts d'.budget
    l'.resources := by
    rw [h.budget]
    exact foldl_append
  rw [hand]
  refine ⟨h'.ctx, h'.err, h'.budget.trans hbalance.symm, ?_, h.kept.trans h'.kept, fun c hc source hs hmem => ?_⟩
  · dsimp only
    rw [h'.endpoints, h.endpoints, publication_append, ← h.budget, append_assoc]
  · dsimp only at hc
    rw [charges_append, ← h.budget, mem_append] at hc
    rcases hc with hc | hc
    · exact h'.kept (h.marked c hc source hs hmem)
    · exact h'.marked c hc source hs hmem

/-- A part whose lists failed is the end of the pass. -/
theorem Follows.stop {d : Discovered} {l : Listed} (h : Follows rt opts d l d') (hl : l.err.isSome = true)
    (l' : Listed) : Follows rt opts d (l.andThen l') d' := by
  unfold Listed.andThen
  rwa [if_pos hl]

theorem mem_merge_right {source : String} (hs : SourceName source) {r r' : Result}
    (h : source ∈ r'.incompleteSources) : source ∈ (r.merge r').incompleteSources :=
  Finset.mem_union_right _ (Finset.mem_erase.2 ⟨hs.ne, Finset.mem_image.2 ⟨source, h, hs.normal⟩⟩)

theorem follows_resource (rt : SourceRuntime) (opts : Options) (d : Discovered) (hctx : d.ctx = none)
    (resource : Resource) :
    Follows rt opts d { resources := [resource] } (d.absorb (resource.process rt d.ctx opts d.budget)) := by
  rw [hctx]
  obtain ⟨herr, hlive⟩ := process_live (b := d.budget) rt opts resource
  refine ⟨hlive, herr, rfl, ?_, Finset.subset_union_left, fun c hc source hs hmem => ?_⟩
  · unfold publication charges charges
    rw [flatMap_singleton]
    rfl
  · unfold charges charges at hc
    rw [mem_singleton.1 hc] at hmem
    exact mem_merge_right hs hmem

/-- A loop that absorbs a resource for every object follows the resources. -/
theorem forEach_follows {α : Type} (resource : α → Resource) (step : Discovered → α → Discovered)
    (hstep : ∀ d, d.ctx = none → ∀ a, step d a = d.absorb ((resource a).process rt d.ctx opts d.budget))
    (l : List α) (d : Discovered) (hctx : d.ctx = none) (herr : d.err = none) :
    Follows rt opts d { resources := l.map resource } (forEach step l d) := by
  induction l generalizing d with
  | nil => exact follows_refl hctx herr
  | cons a l ih =>
    have hone := follows_resource rt opts d hctx (resource a)
    have hrest := ih (step d a) (hstep d hctx a ▸ hone.ctx) (hstep d hctx a ▸ hone.err)
    have hnone : ¬ (step d a).err.isSome = true := by
      rw [hstep d hctx a, hone.err]
      simp
    have hall : forEach step (a :: l) d = forEach step l (step d a) := by
      rw [forEach]
      exact if_neg hnone
    rw [hall]
    exact (hstep d hctx a ▸ hone).trans rfl hrest

section Discover

variable (rt : SourceRuntime) (opts : Options) (clients : KubernetesClients)

theorem discoverSlices_eq (ns : String) (services : List Service) (r : Result) :
    OnlyMarks r (discoverSlices rt clients opts ns services r).1 ∧
      (discoverSlices rt clients opts ns services r).2 = (discoverSlices rt clients opts ns services {}).2 := by
  have hmark := onlyMarks_markIncomplete sourceName_service r
  unfold discoverSlices
  split
  · exact ⟨(OnlyEvents.refl _).onlyMarks, rfl⟩
  cases listEndpointSlices clients ns with
  | ok slices => exact ⟨(OnlyEvents.refl _).onlyMarks, rfl⟩
  | error err =>
    cases err with
    | notSynced => exact ⟨hmark.trans (onlyEvents_addInfoEvent _ _ _ _).onlyMarks, rfl⟩
    | unavailable => exact ⟨hmark.trans (onlyEvents_addInfoEvent _ _ _ _).onlyMarks, rfl⟩
    | canceled => exact ⟨hmark.trans (onlyEvents_addEvent _ _ _ _).onlyMarks, rfl⟩
    | failed => exact ⟨hmark.trans (onlyEvents_addEvent _ _ _ _).onlyMarks, rfl⟩

/-- What was discovered apart from the rest is merged into it. -/
theorem Follows.absorb {d : Discovered} {l : Listed} (h : Follows rt opts { d with result := {} } l d') :
    Follows rt opts d l (d.absorb d') := by
  refine ⟨h.ctx, h.err, h.budget, ?_, Finset.subset_union_left, fun c hc source hs hmem => ?_⟩
  · show d.result.endpoints ++ d'.result.endpoints = _
    rw [h.endpoints]
    rfl
  · exact mem_merge_right hs (h.marked c hc source hs hmem)

/-- The routes are listed only after all Gateways. -/
theorem gatewaysListed_err (namespaces : List String) (gateways : GoMap Gateway) {found : GoMap Gateway}
    (h : (gatewaysListed clients namespaces gateways).2 = some found) :
    (gatewaysListed clients namespaces gateways).1.err = none := by
  induction namespaces generalizing gateways with
  | nil => rfl
  | cons ns rest ih =>
    unfold gatewaysListed at h ⊢
    cases hlist : clients.gateways ns with
    | error err =>
      rw [hlist] at h
      cases err <;> cases h
    | ok listed =>
      rw [hlist] at h
      exact ih _ h

variable {d : Discovered} (hctx : d.ctx = none) (herr : d.err = none)

include hctx herr

theorem discoverServices_follows (ns : String) :
    Follows rt opts d (servicesListed rt clients opts ns) (discoverServices rt clients opts ns d) := by
  unfold servicesListed discoverServices
  split
  · exact follows_refl hctx herr
  cases clients.services ns with
  | error err => exact follows_failed _ _ hctx err
  | ok services =>
    obtain ⟨hmarks, hslices⟩ := discoverSlices_eq rt opts clients ns services d.result
    have hstart : Follows rt opts d {} { d with result :=
      (discoverSlices rt clients opts ns services d.result).1 } :=
      follows_marked hctx herr hmarks
    dsimp only
    rw [hslices]
    refine hstart.trans rfl (forEach_follows (fun s => .service s (indexEndpointSlices _ s.name)) _
      (fun d hlive service => ?_) services _ hctx herr)
    -- the context is found alive
    rw [hlive]
    rfl

theorem discoverIngresses_follows (ns : String) :
    Follows rt opts d (ingressesListed clients opts ns) (discoverIngresses rt clients opts ns d) := by
  unfold ingressesListed discoverIngresses
  split
  · exact follows_refl hctx herr
  cases clients.ingresses ns with
  | error err => exact follows_failed _ _ hctx err
  | ok ingresses => exact forEach_follows .ingress _ (fun d _ ingress => rfl) ingresses d hctx herr

theorem discoverNamespace_follows (ns : String) :
    Follows rt opts d ((servicesListed rt clients opts ns).andThen (ingressesListed clients opts ns))
      (discoverNamespace rt clients opts d ns) := by
  have hservices := discoverServices_follows rt opts clients hctx herr ns
  have hsame : ({ d with ctx := (Context.err d.ctx).2 } : Discovered) = d := by
    cases d
    dsimp only at hctx
    subst hctx
    rfl
  unfold discoverNamespace
  dsimp only
  rw [hsame, hctx, Context.err, if_neg Bool.false_ne_true]
  split
  case isTrue hstop => exact hservices.stop (hservices.err ▸ hstop) _
  case isFalse hgo =>
    have hnone := Option.not_isSome_iff_eq_none.1 hgo
    exact hservices.trans (hservices.err ▸ hnone)
      (discoverIngresses_follows rt opts clients hservices.ctx hnone ns)

theorem namespaces_follow (namespaces : List String) :
    Follows rt opts d (namespacesListed rt clients opts namespaces)
      (forEach (discoverNamespace rt clients opts) namespaces d) := by
  induction namespaces generalizing d with
  | nil => exact follows_refl hctx herr
  | cons ns rest ih =>
    have hone := discoverNamespace_follows rt opts clients hctx herr ns
    unfold namespacesListed forEach
    dsimp only
    split
    case isTrue hstop => exact hone.stop (hone.err ▸ hstop) _
    case isFalse hgo =>
      have hnone := Option.not_isSome_iff_eq_none.1 hgo
      exact hone.trans (hone.err ▸ hnone) (ih hone.ctx hnone)

theorem listedGateways_follow (listed : List Gateway) (gateways : GoMap Gateway) :
    Follows rt opts d { resources := listed.map .gateway } (discoverListedGateways rt opts listed gateways d).2 ∧
      (discoverListedGateways rt opts listed gateways d).1 =
        listed.foldl (fun m g => GoMap.set m (gatewayMapKey g.objectNamespace g.name) g) gateways := by
  induction listed generalizing d gateways with
  | nil => exact ⟨follows_refl hctx herr, rfl⟩
  | cons gateway rest ih =>
    have hone := follows_resource rt opts d hctx (.gateway gateway)
    obtain ⟨hrest, hmap⟩ := ih hone.ctx hone.err
      (GoMap.set gateways (gatewayMapKey gateway.objectNamespace gateway.name) gateway)
    have hcons : discoverListedGateways rt opts (gateway :: rest) gateways d =
        discoverListedGateways rt opts rest
          (GoMap.set gateways (gatewayMapKey gateway.objectNamespace gateway.name) gateway)
          (d.absorb (Resource.process rt d.ctx opts d.budget (.gateway gateway))) := by
      rw [discoverListedGateways]
      dsimp only
      rw [hctx, Context.err, if_neg Bool.false_ne_true]
      refine if_neg ?_
      have hnone := hone.err
      rw [hctx] at hnone
      change (d.absorb (endpointsFromGateway rt none gateway opts d.budget)).err = none at hnone
      rw [hnone]
      simp
    rw [hcons]
    exact ⟨hone.trans rfl hrest, hmap⟩

theorem gateways_follow (namespaces : List String) (gateways : GoMap Gateway) :
    Follows rt opts d (gatewaysListed clients namespaces gateways).1
      (discoverGateways rt clients opts namespaces gateways d).2 ∧
      (discoverGateways rt clients opts namespaces gateways d).1 =
      (gatewaysListed clients namespaces gateways).2 := by
  induction namespaces generalizing d gateways with
  | nil => exact ⟨follows_refl hctx herr, rfl⟩
  | cons ns rest ih =>
    unfold gatewaysListed discoverGateways
    cases clients.gateways ns with
    | error err =>
      have hstop := follows_failed rt opts hctx err
      cases err with
      | unavailable =>
        refine ⟨?_, rfl⟩
        have hmarks := (onlyMarks_markIncomplete sourceName_gateway d.result).trans
          (onlyEvents_addInfoEvent _ { kind := "Gateway" } ""
            "Gateway API Gateway resource is unavailable; skipping gateway source").onlyMarks
        exact follows_marked hctx herr hmarks
      | canceled => exact ⟨hstop, rfl⟩
      | notSynced => exact ⟨hstop, rfl⟩
      | failed => exact ⟨hstop, rfl⟩
    | ok listed =>
      obtain ⟨hlisted, hmap⟩ := listedGateways_follow rt opts hctx herr listed gateways
      obtain ⟨hrest, hfound⟩ := ih hlisted.ctx hlisted.err (listed.foldl
        (fun m g => GoMap.set m (gatewayMapKey g.objectNamespace g.name) g) gateways)
      dsimp only
      rw [hmap, if_neg (by rw [hlisted.err]; simp)]
      exact ⟨hlisted.trans rfl hrest, hfound⟩

theorem gatewaySource_follows :
    Follows rt opts d (gatewaySourceListed clients opts) (discoverGatewaySource rt clients opts d) := by
  unfold gatewaySourceListed discoverGatewaySource
  cases discoverHTTPRoutes clients (namespacesForList opts.namespaces) with
  | error err => exact follows_failed _ _ hctx err
  | ok found =>
    cases found with
    | none =>
      dsimp only
      have hevents := onlyEvents_addInfoEvent (Result.markIncomplete {} sourceGateway) { kind := "HTTPRoute" } ""
        "Gateway API HTTPRoute resource is unavailable; skipping gateway source"
      refine ⟨hctx, herr, rfl, ?_, Finset.subset_union_left, fun c hc => absurd hc not_mem_nil⟩
      dsimp only [Result.merge]
      rw [hevents.endpoints, markIncomplete_endpoints]
      rfl
    | some routes =>
      obtain ⟨hlisted, hfound⟩ := gateways_follow rt opts clients (d := { d with result := {} }) hctx herr
        (gatewayNamespacesForList opts routes) ∅
      have habsorbed := hlisted.absorb
      dsimp only
      rcases hpass : discoverGateways rt clients opts (gatewayNamespacesForList opts routes) ∅
        { d with result := {} } with
        ⟨found, out⟩
      have hcomplete : ∀ m, (gatewaysListed clients (gatewayNamespacesForList opts routes) ∅).2 = some m → _ :=
        fun m => gatewaysListed_err clients (gatewayNamespacesForList opts routes) ∅
      rcases hlist : gatewaysListed clients (gatewayNamespacesForList opts routes) ∅ with ⟨listed, found'⟩
      rw [hpass, hlist] at hfound habsorbed
      rw [hlist] at hcomplete
      dsimp only at hfound habsorbed hcomplete
      subst hfound
      cases found with
      | none => exact habsorbed
      | some gateways =>
        have hnone := hcomplete gateways rfl
        exact habsorbed.trans hnone (forEach_follows (.route · gateways) _
          (fun _ _ _ => rfl) routes _ habsorbed.ctx
          (habsorbed.err.trans hnone))

end Discover

/-- **`Discover` walks along the resources of its lists.** -/
theorem discover_follows (rt : SourceRuntime) (clients : KubernetesClients) (opts : Options) :
    Follows rt (opts.withNamespaceLabels clients) { budget := newEndpointBudget opts, ctx := none }
      (passListed rt clients (opts.withNamespaceLabels clients)) (discover rt none clients opts) := by
  have hnamespaces := namespaces_follow rt (opts.withNamespaceLabels clients) clients
    (d := { budget := newEndpointBudget opts, ctx := none }) rfl rfl
    (namespacesForList (opts.withNamespaceLabels clients).namespaces)
  unfold passListed discover
  dsimp only
  cases henabled : (opts.withNamespaceLabels clients).sourceEnabled sourceGateway with
  | false =>
    rw [if_neg Bool.false_ne_true, if_pos (by simp)]
    cases hstop : (forEach (discoverNamespace rt clients (opts.withNamespaceLabels clients))
        (namespacesForList (opts.withNamespaceLabels clients).namespaces)
        { budget := newEndpointBudget opts, ctx := none }).err with
    | some err => exact hnamespaces.stop (by rw [← hnamespaces.err, hstop]; rfl) _
    | none => exact hnamespaces.trans (hnamespaces.err.symm.trans hstop) (follows_refl hnamespaces.ctx hstop)
  | true =>
    rw [if_pos rfl, Bool.not_true, Bool.or_false]
    split
    case isTrue hstop => exact hnamespaces.stop (hnamespaces.err ▸ hstop) _
    case isFalse hgo =>
      have hnone := Option.not_isSome_iff_eq_none.1 hgo
      exact hnamespaces.trans (hnamespaces.err.symm.trans hnone)
        (gatewaySource_follows rt (opts.withNamespaceLabels clients) clients hnamespaces.ctx hnone)

theorem Charged.solvent {d : Discovered} (hb : b.Solvent) (h : Charged b size source r d) : d.budget.Solvent := by
  obtain ⟨spent, more, -, -, hremaining, -, hfits⟩ := h.spent
  exact ⟨by rw [hremaining]; omega, h.perResource ▸ hb.perResource⟩

/-- **The run of a pass**: what is published is taken from the budget, which stays solvent. -/
theorem charges_run (rt : SourceRuntime) (opts : Options) (resources : List Resource) {b : EndpointBudget}
    (hb : b.Solvent) :
    ((publication rt opts b resources).length : Int) ≤ b.remaining - (balance rt opts b resources).remaining ∧
      (balance rt opts b resources).Solvent ∧
      ∀ c ∈ charges rt opts b resources, c.before.Solvent ∧ c.before.perResource = b.perResource := by
  induction resources generalizing b with
  | nil => exact ⟨by simp [publication, charges, balance], hb, fun c hc => absurd hc not_mem_nil⟩
  | cons resource rest ih =>
    have hcharged := process_charged rt opts hb none resource
    obtain ⟨hrest, hsolvent, hall⟩ := ih (hcharged.solvent hb)
    obtain ⟨spent, more, hendpoints, hmore, hremaining, -⟩ := hcharged.spent
    refine ⟨?_, hsolvent, fun c hc => ?_⟩
    · have hsplit : publication rt opts b (resource :: rest) =
        (resource.process rt none opts b).result.endpoints ++
          publication rt opts (resource.process rt none opts b).budget rest := by
        unfold publication
        rw [charges, flatMap_cons]
        rfl
      have hbalance : balance rt opts b (resource :: rest) = balance rt opts
        (resource.process rt none opts b).budget rest :=
        rfl
      rw [hsplit, hbalance, hendpoints, nil_append, length_append]
      push_cast
      omega
    · rw [charges, mem_cons] at hc
      rcases hc with rfl | hc
      · exact ⟨hb, rfl⟩
      · exact ⟨(hall c hc).1, (hall c hc).2.trans hcharged.perResource⟩

theorem newEndpointBudget_solvent (opts : Options) : (newEndpointBudget opts).Solvent := by
  constructor
  · unfold newEndpointBudget
    dsimp only
    split
    · decide
    · omega
  · unfold newEndpointBudget
    dsimp only
    split
    · decide
    · omega

/-- **The endpoint budget of a pass.** A pass that is not canceled publishes what the resources of
its lists publish, each with the budget left by those before it, and no more than its limit; the
budget is never overdrawn. No resource publishes more than the limit of a resource, and one that
exceeds it, or what is left, publishes nothing, is charged nothing and leaves its source incomplete. -/
theorem endpoint_budget (rt : SourceRuntime) (clients : KubernetesClients) (opts : Options) :
    let d := discover rt none clients opts
    let limits := newEndpointBudget opts
    let scope := opts.withNamespaceLabels clients
    let pass := charges rt scope limits (passListed rt clients scope).resources
    d.result.endpoints = pass.flatMap (fun c => (c.outcome rt scope).result.endpoints) ∧
      (d.result.endpoints.length : Int) ≤ limits.remaining ∧ 0 ≤ d.budget.remaining ∧
      ∀ c ∈ pass,
        0 ≤ c.before.remaining ∧ 0 ≤ (c.outcome rt scope).budget.remaining ∧
          ((c.outcome rt scope).result.endpoints.length : Int) ≤ limits.perResource ∧
          (limits.perResource < c.resource.expansion rt scope ∨
            c.before.remaining < c.resource.expansion rt scope →
            (c.outcome rt scope).result.endpoints = [] ∧ (c.outcome rt scope).budget = c.before ∧
              d.result.sourceComplete c.resource.source = false) := by
  intro d limits scope pass
  have hsolvent : limits.Solvent := newEndpointBudget_solvent opts
  have hfollows := discover_follows rt clients opts
  have hendpoints : d.result.endpoints = publication rt scope limits (passListed rt clients scope).resources :=
    hfollows.endpoints.trans (nil_append _)
  obtain ⟨hlength, hleft, hall⟩ := charges_run rt scope (passListed rt clients scope).resources hsolvent
  refine ⟨hendpoints, ?_, ?_, fun c hc => ?_⟩
  · rw [hendpoints]
    have := hleft.remaining
    omega
  · show 0 ≤ (discover rt none clients opts).budget.remaining
    rw [hfollows.budget]
    exact hleft.remaining
  · obtain ⟨hbefore, hper⟩ := hall c hc
    have hcharged := process_charged rt scope hbefore none c.resource
    refine ⟨hbefore.remaining, (hcharged.solvent hbefore).remaining, ?_, fun hover => ?_⟩
    · obtain ⟨spent, more, hemitted, hmore, -, hfits, -⟩ := hcharged.spent
      have hresult : (c.outcome rt scope).result.endpoints = more := hemitted
      rw [hresult, ← hper]
      omega
    · obtain ⟨hnothing, hsame, hmark⟩ :=
        hcharged.rejected (by unfold EndpointBudget.Exceeded; rw [hper]; exact hover)
      refine ⟨hnothing, hsame, ?_⟩
      -- the mark of the resource is merged into the result of the pass
      have hs := sourceName_source c.resource
      rw [← Bool.not_eq_true, sourceComplete_iff hs, not_not] at hmark ⊢
      exact hfollows.marked c hc c.resource.source hs hmark

end FortigateDns.Source
