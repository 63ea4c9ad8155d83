import FortigateDns.Proof.Codec
import FortigateDns.Proof.Separation

/-!
# Everything discovery publishes is in scope and writable

* `discover_forall`: **an endpoint of a pass comes from a resource that was listed**, in any context.
* `discover_sound`: **every endpoint of a pass is sound, and the device client can write it.**
-/

namespace FortigateDns.Source

open Go List

variable {resource : Resource}

section Pass

variable {rt : SourceRuntime} {opts : Options} {clients : KubernetesClients} {P : Endpoint → Prop}

/-- A property of all endpoints so far. -/
def Discovered.Forall (P : Endpoint → Prop) (d : Discovered) : Prop := ∀ e ∈ d.result.endpoints, P e

theorem forall_absorb {d other : Discovered} (h : d.Forall P) (hother : other.Forall P) :
    (d.absorb other).Forall P := by
  intro e he
  rcases mem_append.1 he with he | he
  · exact h e he
  · exact hother e he

theorem forall_congr {d d' : Discovered} (h : d.Forall P) (hsame : d'.result.endpoints = d.result.endpoints) :
    d'.Forall P := by
  intro e he
  rw [hsame] at he
  exact h e he

theorem forall_loop {α : Type} {step : Discovered → α → Discovered} {l : List α}
    (hstep : ∀ d : Discovered, d.Forall P → ∀ a ∈ l, (step d a).Forall P) {d : Discovered} (h : d.Forall P) :
    (forEach step l d).Forall P := by
  induction l generalizing d with
  | nil => exact h
  | cons a l ih =>
    have ha := hstep d h a mem_cons_self
    unfold forEach
    dsimp only
    split
    · exact ha
    · exact ih (fun d hd b hb => hstep d hd b (mem_cons_of_mem _ hb)) ha

/-- The resources that a cluster can list. -/
def KubernetesClients.Lists (clients : KubernetesClients) : Resource → Prop
  | .service s _ => ∃ ns services, clients.services ns = .ok services ∧ s ∈ services
  | .ingress i => ∃ ns ingresses, clients.ingresses ns = .ok ingresses ∧ i ∈ ingresses
  | .gateway _ => True
  | .route _ _ => True

variable (hP : ∀ resource, clients.Lists resource → ∀ ctx b, (resource.process rt ctx opts b).Forall P)

include hP

theorem forall_services (ns : String) {d : Discovered} (h : d.Forall P) :
    (discoverServices rt clients opts ns d).Forall P := by
  unfold discoverServices
  split
  · exact h
  cases hlist : clients.services ns with
  | error err => exact h
  | ok services =>
    have hslices := (discoverSlices_eq rt opts clients ns services d.result).1.endpoints
    refine forall_loop (fun d hd s hs => ?_) (forall_congr h hslices)
    dsimp only
    split
    · refine forall_congr hd ?_
      dsimp only
      rw [markIncomplete_endpoints]
    · exact forall_absorb hd (hP (.service s _) ⟨ns, services, hlist, hs⟩ _ _)

theorem forall_ingresses (ns : String) {d : Discovered} (h : d.Forall P) :
    (discoverIngresses rt clients opts ns d).Forall P := by
  unfold discoverIngresses
  split
  · exact h
  cases hlist : clients.ingresses ns with
  | error err => exact h
  | ok ingresses =>
    exact forall_loop (fun d hd i hi => forall_absorb hd (hP (.ingress i) ⟨ns, ingresses, hlist, hi⟩ _ _)) h

theorem forall_namespace (ns : String) {d : Discovered} (h : d.Forall P) :
    (discoverNamespace rt clients opts d ns).Forall P := by
  unfold discoverNamespace
  dsimp only
  split
  · exact h
  · have hservices : (discoverServices rt clients opts ns { d with ctx := (Context.err d.ctx).2 }).Forall P :=
      forall_services hP ns h
    split
    · exact hservices
    · exact forall_ingresses hP ns hservices

theorem forall_listedGateways (listed : List Gateway) (gateways : GoMap Gateway) {d : Discovered}
    (h : d.Forall P) :
    (discoverListedGateways rt opts listed gateways d).2.Forall P := by
  induction listed generalizing d gateways with
  | nil => exact h
  | cons gateway rest ih =>
    unfold discoverListedGateways
    dsimp only
    split
    · refine forall_congr h ?_
      dsimp only
      rw [markIncomplete_endpoints]
    · have hnext : (d.absorb (endpointsFromGateway rt (Context.err d.ctx).2 gateway opts d.budget)).Forall P :=
        forall_absorb h (hP (.gateway gateway) trivial _ _)
      split
      · exact hnext
      · exact ih _ hnext

theorem forall_gateways (namespaces : List String) (gateways : GoMap Gateway) {d : Discovered} (h : d.Forall P) :
    (discoverGateways rt clients opts namespaces gateways d).2.Forall P := by
  induction namespaces generalizing d gateways with
  | nil => exact h
  | cons ns rest ih =>
    unfold discoverGateways
    cases clients.gateways ns with
    | error err =>
      cases err with
      | unavailable =>
        refine forall_congr h ?_
        rw [(onlyEvents_addInfoEvent _ _ _ _).endpoints, markIncomplete_endpoints]
      | canceled => exact h
      | notSynced => exact h
      | failed => exact h
    | ok listed =>
      have hlisted := forall_listedGateways hP listed gateways h
      dsimp only
      split
      · exact hlisted
      · exact ih _ hlisted

theorem forall_gatewaySource {d : Discovered} (h : d.Forall P) :
    (discoverGatewaySource rt clients opts d).Forall P := by
  unfold discoverGatewaySource
  cases discoverHTTPRoutes clients (namespacesForList opts.namespaces) with
  | error err => exact h
  | ok found =>
    cases found with
    | none =>
      refine forall_congr h ?_
      dsimp only [Result.merge]
      rw [(onlyEvents_addInfoEvent _ _ _ _).endpoints, markIncomplete_endpoints]
      exact append_nil _
    | some routes =>
      have hlisted := forall_gateways hP (gatewayNamespacesForList opts routes) ∅ (d := { d with result := {} })
        (fun e he => by cases he)
      dsimp only
      rcases hpass : discoverGateways rt clients opts (gatewayNamespacesForList opts routes) ∅
        { d with result := {} } with ⟨_ | gateways, out⟩
      · rw [hpass] at hlisted
        exact forall_absorb h hlisted
      · rw [hpass] at hlisted
        refine forall_loop (fun d hd r _ => ?_) (forall_absorb h hlisted)
        exact forall_absorb hd (hP (.route r gateways) trivial _ _)

omit hP in
/-- **An endpoint of a pass comes from a resource that was listed.** -/
theorem discover_forall (opts : Options) (hP : ∀ resource, clients.Lists resource → ∀ ctx b,
      (resource.process rt ctx (opts.withNamespaceLabels clients) b).Forall P) (ctx : Context) :
    (discover rt ctx clients opts).Forall P := by
  have hnamespaces : (forEach (discoverNamespace rt clients (opts.withNamespaceLabels clients))
      (namespacesForList (opts.withNamespaceLabels clients).namespaces)
      { budget := newEndpointBudget (opts.withNamespaceLabels clients), ctx := ctx }).Forall P :=
    forall_loop (fun d hd ns _ => forall_namespace hP ns hd) (fun e he => by cases he)
  unfold discover
  dsimp only
  split
  · exact hnamespaces
  · exact forall_gatewaySource hP hnamespaces

end Pass

/-- The sources of the kinds of objects. -/
def sourceKinds : List (String × String) :=
  [("Service", sourceService), ("Ingress", sourceIngress), ("Gateway", sourceGateway),
    ("HTTPRoute", sourceGateway)]

/-- **An endpoint that may be published**: its object is in scope, its name is a valid one strictly
below the zone that the domain filters accept, it has one normalized target of its type, and its TTL is
in range. -/
structure Sound (opts : Options) (e : Endpoint) : Prop where
  sourceNamespace : opts.namespaceAllowed e.source.sourceNamespace = true
  kind : ∃ source, (e.source.kind, source) ∈ sourceKinds ∧ opts.sourceEnabled source = true
  valid : validHostname e.dnsName = true
  concrete : hasPrefix e.dnsName "*" = false
  below : '.' :: (normalizeDNSName opts.zone).toList <:+ e.dnsName.toList
  domain : opts.domainAllowed e.dnsName = true
  target : ∃ t, e.targets = [t] ∧ MatchingTarget e.recordType t
  ttl : 1 ≤ e.ttl ∧ e.ttl ≤ maxTTL

variable {rt : SourceRuntime} {opts : Options}

/-- The targets a resource offers can be published. -/
theorem offers_publishable (hvalid : resource.ValidAddresses) {offer : Offer}
    (hoffer : offer ∈ resource.offers rt opts) {t : String} (ht : t ∈ offer.targets) : Publishable t := by
  cases resource with
  | service s slices =>
    rw [mem_singleton.1 hoffer] at ht
    exact publishable_of_oneForm (oneForm_service s slices hvalid) ht
  | ingress i =>
    rw [mem_singleton.1 hoffer] at ht
    exact publishable_of_oneForm (oneForm_ingress i hvalid) ht
  | gateway g =>
    rw [mem_singleton.1 hoffer] at ht
    exact (gateway_target ((mem_values.1 ht).imp_right And.right)).1
  | route r gateways =>
    unfold Resource.offers at hoffer
    dsimp only at hoffer
    split at hoffer
    · obtain ⟨served, -, rfl⟩ := mem_map.1 hoffer
      exact (targetAt_publishable ((mem_targetsOf r gateways served t).1 ht)).1
    · cases hoffer

/-- The target of a published endpoint. -/
theorem published_matching {t : String} (h : Publishable t) (hne : normalizeTarget (normalizeDNSName t) ≠ "")
    (ref : SourceRef) (ttl : Int) (name : String) :
    ∃ target, (published opts ref ttl name (normalizeDNSName t)).targets = [target] ∧
      MatchingTarget (published opts ref ttl name (normalizeDNSName t)).recordType target := by
  cases hip : parseIP (normalizeDNSName t) with
  | some ip =>
    have hpublished : (published opts ref ttl name (normalizeDNSName t)).targets = [ip.toText] ∧
        (published opts ref ttl name (normalizeDNSName t)).recordType =
          if ip.to4.isSome then recordA else recordAAAA :=
      published_address hip ttl name
    obtain ⟨htargets, htype⟩ := hpublished
    refine ⟨ip.toText, htargets, normalizeTarget_toText ip, ?_, ?_⟩
    · exact ne_empty_of_parseIP (parseIP_toText ip)
    · rw [htype, recordTypeForTarget_text]
  | none =>
    have hsettled : ¬ Unsettled t := h.resolve_left (not_isAddress_of_none hip)
    have hpublished : (published opts ref ttl name (normalizeDNSName t)).targets = [normalizeDNSName t] ∧
        (published opts ref ttl name (normalizeDNSName t)).recordType = recordCNAME :=
      published_name hsettled hip ttl name
    obtain ⟨htargets, htype⟩ := hpublished
    have hnone : parseIP (trimSpace (normalizeDNSName t)) = none := by rw [trimSpace_of_settled hsettled, hip]
    have hnormal : normalizeTarget (normalizeDNSName t) = normalizeDNSName t := by
      rw [normalizeTarget_none hnone]
      exact (normalizeDNSName_idem_iff t).2 hsettled
    refine ⟨normalizeDNSName t, htargets, hnormal, ?_, ?_⟩
    · rwa [hnormal] at hne
    · rw [htype]
      unfold recordTypeForTarget
      rw [hnone]

/-- A TTL that can be published. -/
def TTLInRange (ttl : Int) : Prop := 1 ≤ ttl ∧ ttl ≤ maxTTL

theorem ttlOf_range (annotations : Policy.Labels) {defaultTTL : Int} (h : TTLInRange defaultTTL) :
    TTLInRange (ttlOf rt annotations defaultTTL) := by
  have hread : ∀ {ttl}, ttlFromAnnotations rt annotations defaultTTL = .ok ttl → TTLInRange ttl := by
    intro ttl hok
    unfold ttlFromAnnotations at hok
    split at hok
    · cases hok
      exact h
    · dsimp only at hok
      split at hok
      · cases hok
      · split at hok
        · cases hok
        · rename_i hrange
          cases hok
          rw [not_or] at hrange
          exact ⟨by omega, by omega⟩
  unfold ttlOf Result.ttlOrDefault
  split
  · rename_i ttl hok
    exact hread hok
  · exact h

theorem offers_ttl (httl : TTLInRange opts.defaultTTL) {offer : Offer}
    (hoffer : offer ∈ resource.offers rt opts) :
    TTLInRange offer.ttl := by
  cases resource with
  | service s slices =>
    rw [mem_singleton.1 hoffer]
    exact ttlOf_range s.annotations httl
  | ingress i =>
    rw [mem_singleton.1 hoffer]
    exact ttlOf_range i.annotations httl
  | gateway g =>
    rw [mem_singleton.1 hoffer]
    exact httl
  | route r gateways =>
    unfold Resource.offers at hoffer
    dsimp only at hoffer
    split at hoffer
    · obtain ⟨served, -, rfl⟩ := mem_map.1 hoffer
      exact httl
    · cases hoffer

/-- The object of a resource in scope. -/
theorem inScope_sourceRef (h : resource.inScope opts = true) :
    opts.namespaceAllowed resource.sourceRef.sourceNamespace = true ∧
      ∃ source, (resource.sourceRef.kind, source) ∈ sourceKinds ∧ opts.sourceEnabled source = true := by
  cases resource with
  | service s slices =>
    obtain ⟨henabled, hns⟩ := Bool.and_eq_true_iff.1 h
    exact ⟨hns, sourceService, by simp [sourceKinds, Resource.sourceRef, Service.ref], henabled⟩
  | ingress i =>
    obtain ⟨henabled, hns⟩ := Bool.and_eq_true_iff.1 h
    exact ⟨hns, sourceIngress, by simp [sourceKinds, Resource.sourceRef, Ingress.ref], henabled⟩
  | gateway g =>
    obtain ⟨henabled, hns⟩ := Bool.and_eq_true_iff.1 h
    exact ⟨hns, sourceGateway, by simp [sourceKinds, Resource.sourceRef, Gateway.ref], henabled⟩
  | route r gateways =>
    obtain ⟨henabled, hns⟩ := Bool.and_eq_true_iff.1 h
    exact ⟨hns, sourceGateway, by simp [sourceKinds, Resource.sourceRef, HTTPRoute.ref], henabled⟩

theorem concrete_of_valid {name : String} (hvalid : validHostname name = true)
    (hwild : hasPrefix name "*." = false) : hasPrefix name "*" = false := by
  obtain ⟨-, htext, -⟩ := (validHostname_concrete hwild).1 hvalid
  rw [← Bool.not_eq_true, hasPrefix, isPrefixOf_iff_prefix]
  rintro ⟨rest, hrest⟩
  have hstar := htext.chars '*' (by rw [← hrest]; exact mem_append_left _ (by decide))
  exact absurd hstar (by decide)

/-- **A resource emits sound endpoints only.** -/
theorem process_sound (httl : TTLInRange opts.defaultTTL) (hvalid : resource.ValidAddresses) (ctx : Context)
    (b : EndpointBudget) : (resource.process rt ctx opts b).Forall (Sound opts) := by
  intro e he
  obtain ⟨hscope, -, offer, hoffer, host, hhost, name, hname, t, ht, hne, rfl⟩ := process_emits he
  obtain ⟨hallowed, hkind⟩ := inScope_sourceRef hscope
  obtain ⟨hvalidName, hwild, -⟩ := publishable_valid hname
  obtain ⟨-, -, hbelow, hdomain, -⟩ := publishable_inside hname
  have hdns : (published opts resource.sourceRef offer.ttl name (normalizeDNSName t)).dnsName = name :=
    published_name_eq hname offer.ttl (normalizeDNSName t)
  have hpublishable := offers_publishable hvalid hoffer ht
  have hsource :
      (published opts resource.sourceRef offer.ttl name (normalizeDNSName t)).source = resource.sourceRef := by
    dsimp only [published, Endpoint.normalize]
  have hrange : (published opts resource.sourceRef offer.ttl name (normalizeDNSName t)).ttl = offer.ttl := by
    dsimp only [published, Endpoint.normalize]
  constructor
  · rw [hsource]
    exact hallowed
  · rw [hsource]
    exact hkind
  · rw [hdns]
    exact hvalidName
  · rw [hdns]
    exact concrete_of_valid hvalidName hwild
  · rw [hdns]
    exact hbelow
  · rw [hdns]
    exact hdomain
  · exact published_matching hpublishable hne resource.sourceRef offer.ttl name
  · rw [hrange]
    exact offers_ttl httl hoffer

/-- A sound endpoint can be written to the device. -/
theorem Sound.writable {e : Endpoint} (h : Sound opts e) : ∃ r, endpointToRecord e opts.zone = .ok r := by
  obtain ⟨hfixed, relative, hname, -, hne⟩ := valid_below h.valid h.below
  obtain ⟨t, -, hmatch⟩ := h.target
  have htype : RecordType e.recordType := hmatch.type ▸ recordType_of_target t
  refine ⟨_, endpointToRecord_below ?_ ?_ hne⟩
  · rw [normalize_recordType]
    rcases htype with h | h | h <;> rw [h]
    · exact .inl (by decide +kernel)
    · exact .inr (.inl (by decide +kernel))
    · exact .inr (.inr (by decide +kernel))
  · rw [normalize_dnsName, hfixed, hfixed, hname]

/-- The IP-typed fields of the objects that are listed hold addresses. -/
def KubernetesClients.ValidAddresses (clients : KubernetesClients) : Prop :=
  ∀ resource, clients.Lists resource → resource.ValidAddresses

/-- **Everything discovery publishes is in scope and writable**, whatever the cluster answers and whenever the
context ends. -/
theorem discover_sound (rt : SourceRuntime) (ctx : Context) (clients : KubernetesClients) (opts : Options)
    (hvalid : clients.ValidAddresses) (httl : 1 ≤ opts.defaultTTL ∧ opts.defaultTTL ≤ maxTTL) :
    ∀ e ∈ (discover rt ctx clients opts).result.endpoints,
      Sound opts e ∧ ∃ r, endpointToRecord e opts.zone = .ok r := by
  have hall : (discover rt ctx clients opts).Forall (Sound (opts.withNamespaceLabels clients)) := by
    refine discover_forall opts (fun resource hlisted ctx b => ?_) ctx
    have hrange : TTLInRange (opts.withNamespaceLabels clients).defaultTTL := httl
    exact process_sound hrange (hvalid resource hlisted) ctx b
  intro e he
  -- the reader of namespace labels plays no part in what is sound
  have hsound : Sound opts e := by
    obtain ⟨hns, hkind, hname, hconcrete, hbelow, hdomain, htarget, hrange⟩ := hall e he
    exact ⟨hns, hkind, hname, hconcrete, hbelow, hdomain, htarget, hrange⟩
  exact ⟨hsound, hsound.writable⟩

/-- A cluster with a load balancer of one address and a Gateway that could not be listed. -/
def balancerCluster : KubernetesClients where
  services _ := .ok [{
    objectNamespace := "apps"
    name := "web"
    uid := "uid-1"
    annotations := [(annotationHostname, "web.example.com")]
    type := "LoadBalancer"
    loadBalancer := [{ ip := "192.0.2.7" }] }]
  ingresses _ := .ok []
  endpointSlices _ := .ok []
  httpRoutes _ := .error .unavailable
  gateways _ := .error .unavailable
  namespaceLabels _ := none

theorem discover_sound_balancer :
    ∃ e ∈ (discover plainRuntime none balancerCluster edgeOptions).result.endpoints,
      e.dnsName = "web.example.com" ∧ Sound edgeOptions e ∧ ∃ r, endpointToRecord e edgeOptions.zone = .ok r := by
  have hnames : (discover plainRuntime none balancerCluster edgeOptions).result.endpoints.map Endpoint.dnsName =
      ["web.example.com"] := by decide +kernel
  have hvalid : balancerCluster.ValidAddresses := by
    intro resource hlisted
    cases resource with
    | service s slices =>
      obtain ⟨_, services, hok, hs⟩ := hlisted
      cases hok
      obtain rfl := mem_singleton.1 hs
      refine ⟨(fun ip hip => by cases hip), fun item hitem _ => ?_⟩
      obtain rfl := mem_singleton.1 hitem
      decide +kernel
    | ingress i =>
      obtain ⟨_, ingresses, hok, hi⟩ := hlisted
      cases hok
      cases hi
    | gateway g => trivial
    | route r gateways => trivial
  have hweb : "web.example.com" ∈
      (discover plainRuntime none balancerCluster edgeOptions).result.endpoints.map Endpoint.dnsName := by
    rw [hnames]
    exact mem_singleton_self _
  obtain ⟨e, he, hname⟩ := mem_map.1 hweb
  exact ⟨e, he, hname, discover_sound plainRuntime none balancerCluster edgeOptions hvalid (by decide) e he⟩

end FortigateDns.Source
