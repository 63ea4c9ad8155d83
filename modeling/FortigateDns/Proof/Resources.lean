import FortigateDns.Proof.Publishing

/-!
# What a resource offers

The hostnames and targets of a Service, an Ingress, a Gateway or an HTTPRoute as functions of the
object, without the events on the way, and what the code does with them.

* `balancerLoop_eq`, `headlessTargets_events`, `collectGatewayTargets_eq`: the loops that
  collect targets only report.
* `Resource.offers`, `Resource.expansion`: the offers of a resource, one for each served name of a
  route, and the number of endpoints they may come to.
-/

namespace FortigateDns.Source

open Go List
open Policy (Labels)

variable {rt : SourceRuntime} {opts : Options} {ref : SourceRef} {r : Result} {ctx : Context}
variable {r' : Result} {hosts : List String} {ttl : Int}

/-- The hostnames of a load balancer that can be published. -/
def balancerHostnames (rt : SourceRuntime) (items : List LoadBalancerIngress) : List String :=
  items.filterMap fun item => if item.hostname = "" then none else validTargetHostname rt item.hostname

/-- The addresses of a load balancer that come without a hostname. -/
def balancerIPs (items : List LoadBalancerIngress) : List String :=
  items.filterMap fun item => if item.hostname = "" ∧ item.ip ≠ "" then some item.ip else none

theorem balancerItem_eq (rt : SourceRuntime) (ref : SourceRef) (described : String) (st : BalancerState)
    (item : LoadBalancerIngress) :
    OnlyEvents st.result (st.item rt described ref item).result ∧
      (st.item rt described ref item).hostnames = st.hostnames ++ balancerHostnames rt [item] ∧
      (st.item rt described ref item).ips = st.ips ++ balancerIPs [item] := by
  unfold BalancerState.item balancerHostnames balancerIPs
  by_cases hname : item.hostname = ""
  · by_cases hip : item.ip = "" <;> simp [hname, hip, OnlyEvents.refl]
  · rw [if_pos hname]
    cases hvalid : validTargetHostname rt item.hostname with
    | none => simp [hname, hvalid, onlyEvents_addEvent]
    | some name => simp [hname, hvalid, OnlyEvents.refl]

theorem balancerLoop_eq (rt : SourceRuntime) (ref : SourceRef) (described : String)
    (items : List LoadBalancerIngress) (st : BalancerState) :
    OnlyEvents st.result (items.foldl (BalancerState.item rt described ref) st).result ∧
      (items.foldl (BalancerState.item rt described ref) st).hostnames =
        st.hostnames ++ balancerHostnames rt items ∧
      (items.foldl (BalancerState.item rt described ref) st).ips = st.ips ++ balancerIPs items := by
  induction items generalizing st with
  | nil => exact ⟨.refl _, (append_nil _).symm, (append_nil _).symm⟩
  | cons item items ih =>
    obtain ⟨hevents, hname, hip⟩ := balancerItem_eq rt ref described st item
    obtain ⟨hrest, hnames, hips⟩ := ih (st.item rt described ref item)
    have hsplit : ∀ {f : LoadBalancerIngress → Option String},
        (item :: items).filterMap f = [item].filterMap f ++ items.filterMap f := by
      intro f
      rw [← filterMap_append]
      rfl
    refine ⟨hevents.trans hrest, ?_, ?_⟩
    · rw [foldl_cons, hnames, hname, append_assoc]
      exact congrArg _ hsplit.symm
    · rw [foldl_cons, hips, hip, append_assoc]
      exact congrArg _ hsplit.symm

/-- The targets of a Service that is neither ExternalName nor headless. -/
def Service.addresses (rt : SourceRuntime) (service : Service) : List String :=
  if service.type = "LoadBalancer" then
    preferHostnames (balancerHostnames rt service.loadBalancer)
      (service.externalIPs ++ balancerIPs service.loadBalancer)
  else service.externalIPs

theorem serviceTargets_eq (rt : SourceRuntime) (ref : SourceRef) (service : Service) (r : Result) :
    OnlyEvents r (serviceTargets rt service r ref).1 ∧
      (serviceTargets rt service r ref).2 = service.addresses rt := by
  unfold serviceTargets Service.addresses
  dsimp only
  by_cases htype : service.type = "LoadBalancer"
  · rw [if_pos htype, if_pos htype]
    obtain ⟨hevents, hnames, hips⟩ := balancerLoop_eq rt ref "LoadBalancer hostname" service.loadBalancer
      { ips := service.externalIPs, result := r }
    rw [hnames, hips]
    exact ⟨hevents, rfl⟩
  · rw [if_neg htype, if_neg htype]
    exact ⟨.refl r, rfl⟩

/-- The targets of an Ingress. -/
def Ingress.addresses (rt : SourceRuntime) (ingress : Ingress) : List String :=
  preferHostnames (balancerHostnames rt ingress.loadBalancer) (balancerIPs ingress.loadBalancer)

theorem ingressTargets_eq (rt : SourceRuntime) (ref : SourceRef) (ingress : Ingress) (r : Result) :
    OnlyEvents r (ingressTargets rt ingress r ref).1 ∧
      (ingressTargets rt ingress r ref).2 = ingress.addresses rt := by
  unfold ingressTargets Ingress.addresses
  dsimp only
  obtain ⟨hevents, hnames, hips⟩ := balancerLoop_eq rt ref "Ingress load balancer hostname"
    ingress.loadBalancer { result := r }
  rw [hnames, hips]
  exact ⟨hevents, rfl⟩

theorem onlyEvents_address (addressType : AddressType) (st : HeadlessState) (address : String) :
    OnlyEvents st.result (st.address addressType ref address).result := by
  unfold HeadlessState.address
  split
  · unfold HeadlessState.reportFamily
    split
    · exact .refl _
    · exact onlyEvents_addEvent _ _ _ _
  · split <;> exact .refl _

theorem onlyEvents_states {α : Type} {f : HeadlessState → α → HeadlessState}
    (hf : ∀ st a, OnlyEvents st.result (f st a).result) (l : List α) (st : HeadlessState) :
    OnlyEvents st.result (l.foldl f st).result := by
  induction l generalizing st with
  | nil => exact .refl _
  | cons a l ih => exact (hf st a).trans (ih (f st a))

theorem onlyEvents_slice (service : Service) (st : HeadlessState) (slice : EndpointSlice) :
    OnlyEvents st.result (HeadlessState.slice service ref st slice).result := by
  unfold HeadlessState.slice
  split_ifs
  · exact .refl _
  · unfold HeadlessState.reportType
    split
    · exact .refl _
    · exact onlyEvents_addEvent _ _ _ _
  · refine onlyEvents_states (fun st endpoint => ?_) _ st
    unfold HeadlessState.endpoint
    split
    · exact onlyEvents_states (onlyEvents_address slice.addressType) _ st
    · exact .refl _

theorem headlessTargets_events (ref : SourceRef) (service : Service) (slices : List EndpointSlice) :
    OnlyEvents {} (headlessTargets service slices ref).2 :=
  onlyEvents_states (onlyEvents_slice service) _ {}

/-- The name of a Gateway address, if it is published as a hostname. -/
def GatewayAddress.asHostname (address : GatewayAddress) : Option String :=
  if address.type.getD .ipAddress = .hostname ∧ validGatewayHostname (trimSpace address.value) = true ∧
      (parseIP (trimSpace address.value)).isNone = true then some (trimSpace address.value)
  else none

/-- The text of a Gateway address, if it is published as an IP address. -/
def GatewayAddress.asIP (address : GatewayAddress) : Option String :=
  if address.type.getD .ipAddress = .ipAddress then (parseIP (trimSpace address.value)).map IP.toText else none

/-- The targets of a Gateway. -/
def Gateway.targets (gateway : Gateway) : GatewayAddressTargets :=
  ⟨gateway.addresses.filterMap GatewayAddress.asHostname, gateway.addresses.filterMap GatewayAddress.asIP⟩

theorem collectAddress_eq (rt : SourceRuntime) (ref : SourceRef) (st : GatewayAddressTargets × Result)
    (address : GatewayAddress) :
    OnlyEvents st.2 (collectAddress rt ref st address).2 ∧
      (collectAddress rt ref st address).1 =
        st.1.append ⟨address.asHostname.toList, address.asIP.toList⟩ := by
  unfold collectAddress GatewayAddress.asHostname GatewayAddress.asIP GatewayAddressTargets.append
  cases htype : address.type.getD .ipAddress with
  | ipAddress =>
    dsimp only
    cases hip : parseIP (trimSpace address.value) with
    | none => simp [onlyEvents_addEvent]
    | some ip => simp [OnlyEvents.refl]
  | hostname =>
    dsimp only
    by_cases hvalid : validGatewayHostname (trimSpace address.value) = true ∧
        (parseIP (trimSpace address.value)).isNone = true
    · rw [if_pos hvalid, if_pos ⟨rfl, hvalid⟩]
      simp [OnlyEvents.refl]
    · rw [if_neg hvalid, if_neg (fun h => hvalid h.2)]
      simp [onlyEvents_addEvent]
  | other name => simp [onlyEvents_addEvent]

theorem collectGatewayTargets_eq (rt : SourceRuntime) (gateway : Gateway) (r : Result) :
    OnlyEvents r (collectGatewayTargets rt gateway r).2 ∧
      (collectGatewayTargets rt gateway r).1 = gateway.targets := by
  have hloop : ∀ (addresses : List GatewayAddress) (st : GatewayAddressTargets × Result),
      OnlyEvents st.2 (addresses.foldl (collectAddress rt gateway.ref) st).2 ∧
        (addresses.foldl (collectAddress rt gateway.ref) st).1 = st.1.append
          ⟨addresses.filterMap GatewayAddress.asHostname, addresses.filterMap GatewayAddress.asIP⟩ := by
    intro addresses
    induction addresses with
    | nil => exact fun st => ⟨.refl _, by simp [GatewayAddressTargets.append]⟩
    | cons address addresses ih =>
      intro st
      obtain ⟨hevents, hstep⟩ := collectAddress_eq rt gateway.ref st address
      obtain ⟨hrest, htargets⟩ := ih (collectAddress rt gateway.ref st address)
      refine ⟨hevents.trans hrest, ?_⟩
      rw [foldl_cons, htargets, hstep]
      cases hname : address.asHostname <;> cases hip : address.asIP <;>
        simp [GatewayAddressTargets.append, hname, hip]
  obtain ⟨hevents, htargets⟩ := hloop gateway.addresses ({}, r)
  exact ⟨hevents, htargets.trans (by simp [GatewayAddressTargets.append, Gateway.targets])⟩

/-- A step that reports and marks sources. -/
structure OnlyMarks (r r' : Result) : Prop where
  endpoints : r'.endpoints = r.endpoints
  incompleteSources : r.incompleteSources ⊆ r'.incompleteSources
  metadata : r'.metadata = r.metadata

theorem OnlyEvents.onlyMarks {r : Result} (h : OnlyEvents r r') : OnlyMarks r r' :=
  ⟨h.endpoints, h.incompleteSources ▸ Finset.Subset.refl _, h.metadata⟩

theorem OnlyMarks.trans {r r'' : Result} (h : OnlyMarks r r') (h' : OnlyMarks r' r'') : OnlyMarks r r'' :=
  ⟨h'.endpoints.trans h.endpoints, h.incompleteSources.trans h'.incompleteSources, h'.metadata.trans h.metadata⟩

theorem onlyMarks_markIncomplete {source : String} (hs : SourceName source) (r : Result) :
    OnlyMarks r (r.markIncomplete source) :=
  ⟨markIncomplete_endpoints r source, by rw [markIncomplete_sources hs]; exact Finset.subset_insert _ _,
    markIncomplete_metadata r source⟩

theorem onlyMarks_routes {α : Type} {f : RouteState → α → RouteState}
    (hf : ∀ st a, OnlyMarks st.result (f st a).result) (l : List α) (st : RouteState) :
    OnlyMarks st.result (l.foldl f st).result := by
  induction l generalizing st with
  | nil => exact (OnlyEvents.refl _).onlyMarks
  | cons a l ih => exact (hf st a).trans (ih (f st a))

theorem onlyMarks_listener (route : HTTPRoute) (gateway : Gateway) (hostnames : List String) (st : RouteState)
    (listener : Listener) :
    OnlyMarks st.result (st.listener rt route gateway hostnames opts listener).result := by
  unfold RouteState.listener
  split
  · exact (onlyMarks_markIncomplete sourceName_gateway _).trans (onlyEvents_addEvent _ _ _ _).onlyMarks
  · exact (OnlyEvents.refl _).onlyMarks
  · refine onlyMarks_routes (fun st host => ?_) hostnames st
    unfold RouteState.intersect
    split <;> exact (OnlyEvents.refl _).onlyMarks

theorem onlyMarks_parent (route : HTTPRoute) (gateways : GoMap Gateway) (accepted hostnames : List String)
    (st : RouteState) (parent : ParentReference) :
    OnlyMarks st.result (st.parent rt route gateways accepted hostnames opts parent).result := by
  unfold RouteState.parent
  split
  · exact (OnlyEvents.refl _).onlyMarks
  · split
    · exact (OnlyEvents.refl _).onlyMarks
    · rename_i gateway _
      dsimp only
      have hcollect := (collectGatewayTargets_eq rt gateway st.result).1.onlyMarks
      refine hcollect.trans (OnlyMarks.trans ?_ (onlyMarks_routes (fun st host => ?_) _ _))
      · exact onlyMarks_routes (onlyMarks_listener route gateway hostnames) _
          { st with parentHosts := [], result := (collectGatewayTargets rt gateway st.result).2 }
      · exact (OnlyEvents.refl _).onlyMarks

theorem targetsForHTTPRoute_marks (rt : SourceRuntime) (opts : Options) (route : HTTPRoute)
    (gateways : GoMap Gateway) (accepted hostnames : List String) (r : Result) :
    OnlyMarks r (targetsForHTTPRoute rt route gateways accepted hostnames opts r).2 := by
  unfold targetsForHTTPRoute
  dsimp only
  refine OnlyMarks.trans ?_ (onlyEvents_foldl (fun r host => onlyEvents_addEvent r _ host _) _ _).onlyMarks
  exact onlyMarks_routes (onlyMarks_parent route gateways accepted hostnames) route.parentRefs { result := r }

/-- The objects that a pass publishes, with what else it reads for them. -/
inductive Resource
  | service (service : Service) (slices : List EndpointSlice)
  | ingress (ingress : Ingress)
  | gateway (gateway : Gateway)
  | route (route : HTTPRoute) (gateways : GoMap Gateway)

/-- The source that lists the resource. -/
def Resource.source : Resource → String
  | .service _ _ => sourceService
  | .ingress _ => sourceIngress
  | .gateway _ => sourceGateway
  | .route _ _ => sourceGateway

/-- The namespace of a resource is in the scope of the options, and its source is enabled. -/
def Resource.inScope (opts : Options) : Resource → Bool
  | .service s _ => opts.sourceEnabled sourceService && opts.namespaceAllowed s.objectNamespace
  | .ingress i => opts.sourceEnabled sourceIngress && opts.namespaceAllowed i.objectNamespace
  | .gateway g => opts.sourceEnabled sourceGateway && opts.namespaceAllowed g.objectNamespace
  | .route r _ => opts.sourceEnabled sourceGateway && opts.namespaceAllowed r.objectNamespace

/-- What a pass does with a resource. -/
def Resource.process (rt : SourceRuntime) (ctx : Context) (opts : Options) (b : EndpointBudget) :
    Resource → Discovered
  | .service s slices => endpointsFromService rt ctx s slices opts b
  | .ingress i => endpointsFromIngress rt ctx i opts b
  | .gateway g => endpointsFromGateway rt ctx g opts b
  | .route r gateways => endpointsFromHTTPRoute rt ctx r gateways opts b

/-- An ExternalName Service is published, for a name that is a target. -/
def Service.externalNameTargets (opts : Options) (service : Service) : List String :=
  let target := normalizeDNSName service.externalName
  if opts.publishExternalNameServices = true ∧ servicePublicationDecision service opts .externalName ≠ .deny ∧
      (parseIP target).isSome = false ∧ target ≠ "" ∧ target ≠ "*" ∧ hasPrefix target "*." = false ∧
      isDNS1123Subdomain target = true then [target]
  else []

/-- A headless Service is published: it asks for it or the policy allows it, and neither forbids it. -/
def Service.headlessPublished (opts : Options) (service : Service) : Bool :=
  let decision := servicePublicationDecision service opts .headless
  let text := trimSpace (value service.annotations annotationPublishHeadless)
  opts.publishHeadlessServices && decision != .deny &&
    (headlessAnnotated service || (decision == .allow && (text == "" || equalFold text "false")))

/-- The targets of a Service, by its kind. -/
def Service.offeredTargets (rt : SourceRuntime) (opts : Options) (slices : List EndpointSlice)
    (service : Service) :
    List String :=
  if service.type = "ExternalName" then service.externalNameTargets opts
  else if isHeadlessService service then
    if service.headlessPublished opts then (headlessTargets service slices service.ref).1 else []
  else service.addresses rt

/-- The names that an Ingress asks for. -/
def Ingress.hostnames (rt : SourceRuntime) (ingress : Ingress) : List String :=
  uniqueSorted (hostnamesFromAnnotations rt ingress.annotations ++ ingress.ruleHosts.filter (· ≠ ""))

/-- The names of the listeners. -/
def Gateway.hostnames (gateway : Gateway) : List String :=
    uniqueSorted (gateway.listeners.filterMap Listener.hostname)

/-- The TTL of a resource. -/
def ttlOf (rt : SourceRuntime) (annotations : Labels) (defaultTTL : Int) : Int :=
  (Result.ttlOrDefault rt {} {} annotations defaultTTL).2

/-- The hosts, targets and TTL of a resource that publishes one offer. -/
structure Offer where
  hosts : List String
  targets : List String
  ttl : Int

/-- How many endpoints are offered. -/
def Offer.size (rt : SourceRuntime) (opts : Options) (offer : Offer) : Nat :=
    offerSize rt opts offer.hosts offer.targets

/-- What a Service would publish. -/
def Service.offer (rt : SourceRuntime) (opts : Options) (slices : List EndpointSlice)
    (service : Service) : Offer :=
  ⟨hostnamesFromAnnotations rt service.annotations, service.offeredTargets rt opts slices,
    ttlOf rt service.annotations opts.defaultTTL⟩

/-- What an Ingress would publish. -/
def Ingress.offer (rt : SourceRuntime) (opts : Options) (ingress : Ingress) : Offer :=
  ⟨ingress.hostnames rt, ingress.addresses rt, ttlOf rt ingress.annotations opts.defaultTTL⟩

/-- What a Gateway would publish. -/
def Gateway.offer (opts : Options) (gateway : Gateway) : Offer :=
  ⟨gateway.hostnames, gateway.targets.values, opts.defaultTTL⟩

/-- The names that a route serves, with their targets. -/
def HTTPRoute.served (rt : SourceRuntime) (opts : Options) (route : HTTPRoute) (gateways : GoMap Gateway) :
    GoMap GatewayAddressTargets :=
  (targetsForHTTPRoute rt route gateways (acceptedParentRefs route) (uniqueSorted route.hostnames) opts {}).1

/-- A route is published: it has hostnames, they may lie in the zone, and its status is current. -/
def HTTPRoute.published (rt : SourceRuntime) (opts : Options) (route : HTTPRoute) : Bool :=
  !(uniqueSorted route.hostnames).isEmpty && routeHostnamesMayPublish rt (uniqueSorted route.hostnames) opts &&
    routeStatusCurrent route && !(acceptedParentRefs route).isEmpty

/-- **The expansion of a resource**: hostnames by targets, for a route over all it serves. -/
def Resource.expansion (rt : SourceRuntime) (opts : Options) (resource : Resource) : Nat :=
  if resource.inScope opts = false then 0
  else
    match resource with
    | .service s slices => (s.offer rt opts slices).size rt opts
    | .ingress i => (i.offer rt opts).size rt opts
    | .gateway g => (g.offer opts).size rt opts
    | .route r gateways =>
      if r.published rt opts then
        routeExpansion rt opts r.ref (r.served rt opts gateways) (sortStrings (r.served rt opts gateways).keys)
      else 0

variable {b : EndpointBudget} {size : Nat} {source : String}

/-- Two outcomes that differ in their events. -/
structure Agrees (d d' : Discovered) : Prop where
  result : OnlyEvents d.result d'.result
  budget : d'.budget = d.budget
  ctx : d'.ctx = d.ctx
  err : d'.err = d.err

theorem Agrees.refl (d : Discovered) : Agrees d d := ⟨.refl _, rfl, rfl, rfl⟩

/-- **A resource is skipped, having no targets, or its offer is handed to `appendSource`.** -/
def Publishes (rt : SourceRuntime) (ctx : Context) (opts : Options) (b : EndpointBudget) (source : String)
    (ref : SourceRef) (hosts targets : List String) (ttl : Int) (d : Discovered) : Prop :=
  ∃ r, OnlyEvents {} r ∧
    ((targets = [] ∧ Agrees { result := r, budget := b, ctx := ctx } d) ∨
      Agrees (b.appendSource rt ctx r opts source ref hosts targets ttl) d)

theorem publishes_skip {targets : List String} {r : Result} (hr : OnlyEvents {} r) (htargets : targets = []) :
    Publishes rt ctx opts b source ref hosts targets ttl { result := r, budget := b, ctx := ctx } :=
  ⟨r, hr, Or.inl ⟨htargets, .refl _⟩⟩

theorem publishes_append {targets : List String} {r : Result} (hr : OnlyEvents {} r) :
    Publishes rt ctx opts b source ref hosts targets ttl
      (b.appendSource rt ctx r opts source ref hosts targets ttl) :=
  ⟨r, hr, Or.inr (.refl _)⟩

theorem ttlOrDefault_eq (rt : SourceRuntime) (ref : SourceRef) (annotations : Labels) (defaultTTL : Int)
    (r : Result) :
    OnlyEvents r (r.ttlOrDefault rt ref annotations defaultTTL).1 ∧
      (r.ttlOrDefault rt ref annotations defaultTTL).2 = ttlOf rt annotations defaultTTL := by
  unfold ttlOf Result.ttlOrDefault
  split
  · exact ⟨.refl r, rfl⟩
  · exact ⟨onlyEvents_addEvent _ _ _ _, rfl⟩

theorem externalName_publishes (service : Service) (hostnames : List String) :
    Publishes rt ctx opts b sourceService ref hostnames (service.externalNameTargets opts)
      (ttlOf rt service.annotations opts.defaultTTL)
      (endpointsFromExternalNameService rt ctx service hostnames opts ref b) := by
  unfold endpointsFromExternalNameService
  dsimp only
  by_cases hpublish : opts.publishExternalNameServices = true
  swap
  · rw [if_pos (by simpa using hpublish)]
    exact publishes_skip (onlyEvents_addEvent _ _ _ _) (if_neg fun h => hpublish h.1)
  rw [if_neg (by simpa using hpublish)]
  by_cases hdeny : servicePublicationDecision service opts .externalName = .deny
  · rw [if_pos hdeny]
    exact publishes_skip (onlyEvents_addEvent _ _ _ _) (if_neg fun h => h.2.1 hdeny)
  rw [if_neg hdeny]
  by_cases hip : (parseIP (normalizeDNSName service.externalName)).isSome = true
  · rw [if_pos hip]
    exact publishes_skip (onlyEvents_addEvent _ _ _ _) (if_neg fun h => Bool.noConfusion (hip.symm.trans h.2.2.1))
  rw [if_neg hip]
  by_cases hname : normalizeDNSName service.externalName = "" ∨ normalizeDNSName service.externalName = "*" ∨
      hasPrefix (normalizeDNSName service.externalName) "*." = true ∨
      isDNS1123Subdomain (normalizeDNSName service.externalName) = false
  · rw [if_pos hname]
    refine publishes_skip (onlyEvents_addEvent _ _ _ _) (if_neg ?_)
    rintro ⟨-, -, -, hne, hstar, hwild, hvalid⟩
    rcases hname with h | h | h | h
    · exact hne h
    · exact hstar h
    · exact Bool.noConfusion (h.symm.trans hwild)
    · exact Bool.noConfusion (h.symm.trans hvalid)
  · rw [if_neg hname]
    simp only [not_or, Bool.not_eq_false, Bool.not_eq_true] at hname hip
    have htargets : service.externalNameTargets opts = [normalizeDNSName service.externalName] :=
      if_pos ⟨hpublish, hdeny, hip, hname⟩
    obtain ⟨hr, httl⟩ := ttlOrDefault_eq rt ref service.annotations opts.defaultTTL {}
    rw [htargets, httl]
    exact publishes_append hr

/-- Merging results without endpoints, marks and metadata only adds events. -/
theorem onlyEvents_merge {r : Result} (hr : OnlyEvents {} r) (hr' : OnlyEvents {} r') :
    OnlyEvents {} (r.merge r') := by
  refine ⟨?_, ?_, ?_⟩
  · show r.endpoints ++ r'.endpoints = []
    rw [hr.endpoints, hr'.endpoints]
    rfl
  · show r.incompleteSources ∪ (r'.incompleteSources.image fun source => toLower (trimSpace source)).erase "" = ∅
    rw [hr.incompleteSources, hr'.incompleteSources]
    rfl
  · show r'.metadata.entries.foldl (fun m entry => m.set entry.1 entry.2) r.metadata = ∅
    rw [hr.metadata, hr'.metadata]
    rfl

/-- The annotation of a headless Service that is not published by it leaves the decision to the policy. -/
theorem headlessPublished_iff (service : Service) (hpublish : opts.publishHeadlessServices = true)
    (hdeny : servicePublicationDecision service opts .headless ≠ .deny) :
    service.headlessPublished opts = true ↔
      ¬ ((service.annotations.lookup annotationPublishHeadless).isSome = true ∧
        trimSpace (value service.annotations annotationPublishHeadless) ≠ "" ∧ headlessAnnotated service = false ∧
        equalFold (trimSpace (value service.annotations annotationPublishHeadless)) "false" = false) ∧
      ¬ (headlessAnnotated service = false ∧ servicePublicationDecision service opts .headless ≠ .allow) := by
  -- an absent annotation is blank
  have hblank : service.annotations.lookup annotationPublishHeadless = none →
      trimSpace (value service.annotations annotationPublishHeadless) = "" := by
    intro h
    unfold value
    rw [h]
    decide
  unfold Service.headlessPublished
  dsimp only
  generalize hdecision : servicePublicationDecision service opts .headless = decision at *
  generalize trimSpace (value service.annotations annotationPublishHeadless) = text at *
  generalize headlessAnnotated service = annotated at *
  generalize service.annotations.lookup annotationPublishHeadless = found at *
  have hne : (decision != .deny) = true := by simpa using hdeny
  rw [hpublish, hne]
  cases annotated <;> cases found <;> by_cases htext : text = "" <;> simp_all [and_comm]

theorem headless_publishes (service : Service) (slices : List EndpointSlice) (hostnames : List String) :
    Publishes rt ctx opts b sourceService ref hostnames
      (if service.headlessPublished opts then (headlessTargets service slices ref).1 else [])
      (ttlOf rt service.annotations opts.defaultTTL)
      (endpointsFromHeadlessService rt ctx service slices hostnames opts ref b) := by
  have hskip : ∀ {r : Result}, OnlyEvents {} r → service.headlessPublished opts = false →
      Publishes rt ctx opts b sourceService ref hostnames
        (if service.headlessPublished opts then (headlessTargets service slices ref).1 else [])
        (ttlOf rt service.annotations opts.defaultTTL) { result := r, budget := b, ctx := ctx } := by
    intro r hr hpublished
    exact publishes_skip hr (if_neg (by rw [hpublished]; simp))
  unfold endpointsFromHeadlessService
  dsimp only
  by_cases hpublish : opts.publishHeadlessServices = true
  swap
  · have hpublished : service.headlessPublished opts = false := by
      unfold Service.headlessPublished
      dsimp only
      rw [Bool.eq_false_iff.2 hpublish, Bool.false_and, Bool.false_and]
    rw [if_pos (c := (!opts.publishHeadlessServices) = true) (by simpa using hpublish)]
    by_cases hasked : headlessAnnotated service = true ∨
      servicePublicationDecision service opts .headless = .allow
    · rw [if_pos (c := _ ∨ _) hasked]
      exact hskip (onlyEvents_addEvent _ _ _ _) hpublished
    · rw [if_neg (c := _ ∨ _) hasked]
      exact hskip (.refl _) hpublished
  rw [if_neg (c := (!opts.publishHeadlessServices) = true) (by simpa using hpublish)]
  by_cases hdeny : servicePublicationDecision service opts .headless = .deny
  · rw [if_pos (c := servicePublicationDecision service opts .headless = .deny) hdeny]
    refine hskip (onlyEvents_addEvent _ _ _ _) ?_
    unfold Service.headlessPublished
    dsimp only
    rw [hdeny, bne_self_eq_false, Bool.and_false, Bool.false_and]
  rw [if_neg (c := servicePublicationDecision service opts .headless = .deny) hdeny]
  have hiff := headlessPublished_iff service hpublish hdeny
  by_cases hodd : (service.annotations.lookup annotationPublishHeadless).isSome = true ∧
      trimSpace (value service.annotations annotationPublishHeadless) ≠ "" ∧ headlessAnnotated service = false ∧
      equalFold (trimSpace (value service.annotations annotationPublishHeadless)) "false" = false
  · rw [if_pos (c := _ ∧ _) hodd]
    exact hskip (onlyEvents_addEvent _ _ _ _) (Bool.eq_false_iff.2 fun h => (hiff.1 h).1 hodd)
  rw [if_neg (c := _ ∧ _) hodd]
  by_cases hunasked : headlessAnnotated service = false ∧
    servicePublicationDecision service opts .headless ≠ .allow
  · rw [if_pos (c := _ ∧ _) hunasked]
    exact hskip (.refl _) (Bool.eq_false_iff.2 fun h => (hiff.1 h).2 hunasked)
  rw [if_neg (c := _ ∧ _) hunasked, if_pos (hiff.2 ⟨hodd, hunasked⟩)]
  obtain ⟨hr, httl⟩ := ttlOrDefault_eq rt ref service.annotations opts.defaultTTL {}
  have hmerged := onlyEvents_merge hr (headlessTargets_events ref service slices)
  rw [httl]
  split
  case isTrue hempty =>
    exact publishes_skip (hmerged.trans (onlyEvents_addEvent _ _ _ _)) (List.isEmpty_iff.1 hempty)
  case isFalse => exact publishes_append hmerged

theorem addressed_publishes (service : Service) (hostnames : List String) :
    Publishes rt ctx opts b sourceService ref hostnames (service.addresses rt)
      (ttlOf rt service.annotations opts.defaultTTL)
      (endpointsFromAddressedService rt ctx service hostnames opts ref b) := by
  unfold endpointsFromAddressedService
  dsimp only
  obtain ⟨hr, httl⟩ := ttlOrDefault_eq rt ref service.annotations opts.defaultTTL {}
  obtain ⟨hcollect, htargets⟩ := serviceTargets_eq rt ref service
    (Result.ttlOrDefault rt {} ref service.annotations opts.defaultTTL).1
  rw [httl, htargets]
  split
  case isTrue hempty =>
    exact publishes_skip ((hr.trans hcollect).trans (onlyEvents_addEvent _ _ _ _)) (List.isEmpty_iff.1 hempty)
  case isFalse => exact publishes_append (hr.trans hcollect)

/-- `appendSource` marks no other source and describes nothing. -/
theorem appendSource_marks (rt : SourceRuntime) (ctx : Context) (opts : Options) (ref : SourceRef)
    (hs : SourceName source) (r : Result) (hosts targets : List String) (ttl : Int) :
    (b.appendSource rt ctx r opts source ref hosts targets ttl).result.incompleteSources ⊆
        insert source r.incompleteSources ∧
      (b.appendSource rt ctx r opts source ref hosts targets ttl).result.metadata = r.metadata := by
  obtain ⟨hevents, -⟩ := publishableHosts_eq rt opts ref r hosts
  unfold EndpointBudget.appendSource
  dsimp only
  split
  · rw [markIncomplete_sources hs, markIncomplete_metadata]
    exact ⟨Finset.Subset.refl _, rfl⟩
  split
  · have hreport := onlyEvents_addEvent ((publishableHosts rt r opts ref hosts).1.markIncomplete source) ref ""
    rw [(hreport _).incompleteSources, (hreport _).metadata, markIncomplete_sources hs, markIncomplete_metadata,
      hevents.incompleteSources, hevents.metadata]
    exact ⟨Finset.Subset.refl _, rfl⟩
  · have hloop : ∀ (b : EndpointBudget) (hosts : List String) (r : Result) (ctx : Context),
        (appendHosts opts source ref (uniqueSorted targets) ttl b hosts r ctx).result.incompleteSources ⊆
          insert source r.incompleteSources := by
      intro b hosts
      induction hosts with
      | nil => exact fun r ctx => Finset.subset_insert _ _
      | cons host hosts ih =>
        intro r ctx
        have hhost := appendEndpointForHost_eq opts ref r host (uniqueSorted targets) ttl
        unfold appendHosts
        dsimp only
        split
        · rw [markIncomplete_sources hs]
        · refine (ih _ _).trans ?_
          rw [hhost.incompleteSources]
    have hmetadata := (appendHosts_endpoints opts ref source (uniqueSorted targets) ttl
      { b with remaining := b.remaining - (publishableHosts rt r opts ref hosts).2.length *
        (uniqueSorted targets).length }
      (publishableHosts rt r opts ref hosts).2 (publishableHosts rt r opts ref hosts).1 (Context.err ctx).2).2.1
    refine ⟨?_, hmetadata.trans hevents.metadata⟩
    rw [← hevents.incompleteSources]
    exact hloop _ _ _ _

/-- Merging into an empty result keeps what one source left behind. -/
theorem onlyEvents_merge_empty (hs : SourceName source) {r : Result} (hmarks : r.incompleteSources ⊆ {source})
    (hmetadata : r.metadata = ∅) : OnlyEvents r (Result.merge {} r) := by
  refine ⟨rfl, ?_, ?_⟩
  · have himage : ∀ s ∈ r.incompleteSources, toLower (trimSpace s) = s := by
      intro s hmem
      rw [Finset.mem_singleton.1 (hmarks hmem)]
      exact hs.normal
    show ∅ ∪ (r.incompleteSources.image fun s => toLower (trimSpace s)).erase "" = r.incompleteSources
    rw [Finset.empty_union, Finset.image_congr (g := id) fun s hmem => himage s hmem, Finset.image_id]
    refine Finset.erase_eq_of_notMem fun hempty => hs.ne ?_
    exact (Finset.mem_singleton.1 (hmarks hempty)).symm
  · show r.metadata.entries.foldl (fun m entry => m.set entry.1 entry.2) (∅ : GoMap ResourceMetadata) = r.metadata
    rw [hmetadata]
    rfl

/-- The published part of an outcome before it is described. -/
theorem Publishes.marks (hs : SourceName source) {targets : List String} {d : Discovered}
    (h : Publishes rt ctx opts b source ref hosts targets ttl d) :
    d.result.incompleteSources ⊆ {source} ∧ d.result.metadata = ∅ := by
  obtain ⟨r, hr, ⟨-, hagree⟩ | hagree⟩ := h
  · rw [hagree.result.incompleteSources, hagree.result.metadata]
    exact ⟨hr.incompleteSources ▸ Finset.empty_subset _, hr.metadata⟩
  · obtain ⟨hmarks, hmetadata⟩ := appendSource_marks (b := b) rt ctx opts ref hs r hosts
      targets ttl
    rw [hagree.result.incompleteSources, hagree.result.metadata, hmetadata]
    rw [hr.incompleteSources] at hmarks
    exact ⟨hmarks, hr.metadata⟩

theorem Publishes.merged (hs : SourceName source) {targets : List String} {d : Discovered}
    (h : Publishes rt ctx opts b source ref hosts targets ttl d) :
    Publishes rt ctx opts b source ref hosts targets ttl { d with result := Result.merge {} d.result } := by
  obtain ⟨hmarks, hmetadata⟩ := h.marks hs
  have hmerge := onlyEvents_merge_empty hs hmarks hmetadata
  obtain ⟨r, hr, ⟨htargets, hagree⟩ | hagree⟩ := h
  · exact ⟨r, hr, Or.inl ⟨htargets, hagree.result.trans hmerge, hagree.budget, hagree.ctx, hagree.err⟩⟩
  · exact ⟨r, hr, Or.inr ⟨hagree.result.trans hmerge, hagree.budget, hagree.ctx, hagree.err⟩⟩

/-- A resource without hostnames is skipped; it has nothing to offer, whatever its targets. -/
def PublishesOffer (rt : SourceRuntime) (ctx : Context) (opts : Options) (b : EndpointBudget) (source : String)
    (ref : SourceRef) (offer : Offer) (d : Discovered) : Prop :=
  (offer.hosts = [] ∧ Agrees { budget := b, ctx := ctx } d) ∨
    Publishes rt ctx opts b source ref offer.hosts offer.targets offer.ttl d

/-- The guard of a resource in scope. -/
theorem not_skipped {p q : Bool} (h : (p && q) = true) : ¬ (p = false ∨ q = false) := by
  rw [not_or, Bool.not_eq_false, Bool.not_eq_false]
  exact Bool.and_eq_true_iff.1 h

theorem service_publishes (rt : SourceRuntime) (ctx : Context) (service : Service) (slices : List EndpointSlice)
    (hscope : (Resource.service service slices).inScope opts = true) :
    ∃ d, PublishesOffer rt ctx opts b sourceService service.ref (service.offer rt opts slices) d ∧
      endpointsFromService rt ctx service slices opts b =
        d.describe service.ref service.labels service.annotations := by
  unfold endpointsFromService
  rw [if_neg (not_skipped hscope)]
  refine ⟨_, ?_, rfl⟩
  unfold Service.offer Service.offeredTargets PublishesOffer
  dsimp only
  by_cases hnone : (hostnamesFromAnnotations rt service.annotations).isEmpty = true
  · rw [if_pos hnone]
    exact Or.inl ⟨List.isEmpty_iff.1 hnone, .refl _⟩
  rw [if_neg hnone]
  right
  by_cases hexternal : service.type = "ExternalName"
  · rw [if_pos hexternal, if_pos hexternal]
    exact (externalName_publishes service _).merged sourceName_service
  rw [if_neg hexternal, if_neg hexternal]
  by_cases hheadless : isHeadlessService service = true
  · rw [if_pos hheadless, if_pos hheadless]
    exact (headless_publishes service slices _).merged sourceName_service
  · rw [if_neg hheadless, if_neg hheadless]
    exact addressed_publishes service _

theorem ingress_publishes (rt : SourceRuntime) (ctx : Context) (ingress : Ingress)
    (hscope : (Resource.ingress ingress).inScope opts = true) :
    ∃ d, PublishesOffer rt ctx opts b sourceIngress ingress.ref (ingress.offer rt opts) d ∧
      endpointsFromIngress rt ctx ingress opts b = d.describe ingress.ref ingress.labels ingress.annotations := by
  unfold endpointsFromIngress
  rw [if_neg (not_skipped hscope)]
  refine ⟨_, ?_, rfl⟩
  unfold Ingress.offer Ingress.hostnames PublishesOffer
  dsimp only
  split
  case isTrue hnone => exact Or.inl ⟨List.isEmpty_iff.1 hnone, .refl _⟩
  case isFalse =>
    right
    obtain ⟨hr, httl⟩ := ttlOrDefault_eq rt ingress.ref ingress.annotations opts.defaultTTL {}
    obtain ⟨hcollect, htargets⟩ := ingressTargets_eq rt ingress.ref ingress
      (Result.ttlOrDefault rt {} ingress.ref ingress.annotations opts.defaultTTL).1
    rw [httl, htargets]
    exact publishes_append (hr.trans hcollect)

theorem gateway_publishes (rt : SourceRuntime) (ctx : Context) (gateway : Gateway)
    (hscope : (Resource.gateway gateway).inScope opts = true) :
    ∃ d, PublishesOffer rt ctx opts b sourceGateway gateway.ref (gateway.offer opts) d ∧
      endpointsFromGateway rt ctx gateway opts b = d.describe gateway.ref gateway.labels gateway.annotations := by
  unfold endpointsFromGateway
  rw [if_neg (not_skipped hscope)]
  refine ⟨_, ?_, rfl⟩
  unfold Gateway.offer Gateway.hostnames PublishesOffer
  dsimp only
  split
  case isTrue hnone => exact Or.inl ⟨List.isEmpty_iff.1 hnone, .refl _⟩
  case isFalse =>
    right
    obtain ⟨hr, htargets⟩ := collectGatewayTargets_eq rt gateway {}
    rw [htargets]
    exact publishes_append hr

/-- What is left of a route that is not published. -/
structure RouteSkipped (ctx : Context) (b : EndpointBudget) (d : Discovered) : Prop where
  endpoints : d.result.endpoints = []
  budget : d.budget = b
  ctx : d.ctx = ctx
  err : d.err = none

theorem route_publishes (rt : SourceRuntime) (ctx : Context) (route : HTTPRoute) (gateways : GoMap Gateway)
    (hscope : (Resource.route route gateways).inScope opts = true) :
    ∃ d, endpointsFromHTTPRoute rt ctx route gateways opts b = d.describe route.ref route.labels
      route.annotations ∧
      ((route.published rt opts = false ∧ RouteSkipped ctx b d) ∨
        (route.published rt opts = true ∧
          d = publishRoute rt ctx route gateways (uniqueSorted route.hostnames) opts b)) := by
  unfold endpointsFromHTTPRoute
  rw [if_neg (not_skipped hscope)]
  refine ⟨_, rfl, ?_⟩
  have hevents : ∀ {r : Result}, OnlyEvents {} r →
      RouteSkipped ctx b { result := r, budget := b, ctx := ctx } := fun hr => ⟨hr.endpoints, rfl, rfl, rfl⟩
  unfold HTTPRoute.published
  cases (uniqueSorted route.hostnames).isEmpty with
  | true => exact Or.inl ⟨rfl, hevents (onlyEvents_addInfoEvent _ _ _ _)⟩
  | false =>
    cases routeHostnamesMayPublish rt (uniqueSorted route.hostnames) opts with
    | false => exact Or.inl ⟨rfl, hevents (.refl _)⟩
    | true =>
      cases routeStatusCurrent route with
      | false =>
        refine Or.inl ⟨rfl, ?_, rfl, rfl, rfl⟩
        simp only [Bool.not_false, Bool.not_true, Bool.false_eq_true, ↓reduceIte]
        rw [(onlyEvents_addEvent _ _ _ _).endpoints, markIncomplete_endpoints]
      | true =>
        cases (acceptedParentRefs route).isEmpty with
        | true => exact Or.inl ⟨rfl, hevents (onlyEvents_addEvent _ _ _ _)⟩
        | false => exact Or.inr ⟨rfl, rfl⟩

/-- The offer of one name that a route serves. -/
def servedOffer (opts : Options) (targetsByHost : GoMap GatewayAddressTargets) (host : String) : Offer :=
  ⟨[host], targetsOf targetsByHost host, opts.defaultTTL⟩

/-- The reference in the endpoints. -/
def Resource.sourceRef : Resource → SourceRef
  | .service s _ => s.ref
  | .ingress i => i.ref
  | .gateway g => g.ref
  | .route r _ => r.ref

/-- **The offers of a resource.** -/
def Resource.offers (rt : SourceRuntime) (opts : Options) : Resource → List Offer
  | .service s slices => [s.offer rt opts slices]
  | .ingress i => [i.offer rt opts]
  | .gateway g => [g.offer opts]
  | .route r gateways =>
    if r.published rt opts then
      (sortStrings (r.served rt opts gateways).keys).map (servedOffer opts (r.served rt opts gateways))
    else []

/-- The listeners of all parents of a route could be evaluated. -/
def Resource.verified (rt : SourceRuntime) (opts : Options) : Resource → Bool
  | .route r gateways =>
    (targetsForHTTPRoute rt r gateways (acceptedParentRefs r) (uniqueSorted r.hostnames) opts {}).2.sourceComplete
      sourceGateway
  | _ => true

/-- **What becomes of a resource in scope**, before it is described: it publishes its one offer, or
it is a route that is skipped or staged. -/
inductive Handled (rt : SourceRuntime) (ctx : Context) (opts : Options) (b : EndpointBudget) :
    Resource → Discovered → Prop
  | offered {resource : Resource} {offer : Offer} {d : Discovered} (hoffers : resource.offers rt opts = [offer])
      (hverified : resource.verified rt opts = true)
      (hexpansion : resource.expansion rt opts = offer.size rt opts)
      (h : PublishesOffer rt ctx opts b resource.source resource.sourceRef offer d) :
      Handled rt ctx opts b resource d
  | skipped {route : HTTPRoute} {gateways : GoMap Gateway} {d : Discovered}
      (hpublished : route.published rt opts = false)
      (h : RouteSkipped ctx b d) : Handled rt ctx opts b (.route route gateways) d
  | staged {route : HTTPRoute} {gateways : GoMap Gateway} (hpublished : route.published rt opts = true) :
      Handled rt ctx opts b (.route route gateways)
        (publishRoute rt ctx route gateways (uniqueSorted route.hostnames) opts b)

/-- A resource in scope publishes one offer, or it is a route that is skipped or staged. -/
theorem process_handled (rt : SourceRuntime) (ctx : Context) (b : EndpointBudget) {resource : Resource}
    (hscope : resource.inScope opts = true) :
    ∃ d labels annotations, Handled rt ctx opts b resource d ∧
      resource.process rt ctx opts b = d.describe resource.sourceRef labels annotations := by
  have hin : ¬ resource.inScope opts = false := by simpa using hscope
  cases resource with
  | service s slices =>
    obtain ⟨d, hd, heq⟩ := service_publishes (b := b) rt ctx s slices hscope
    exact ⟨d, _, _, .offered rfl rfl (if_neg hin) hd, heq⟩
  | ingress i =>
    obtain ⟨d, hd, heq⟩ := ingress_publishes (b := b) rt ctx i hscope
    exact ⟨d, _, _, .offered rfl rfl (if_neg hin) hd, heq⟩
  | gateway g =>
    obtain ⟨d, hd, heq⟩ := gateway_publishes (b := b) rt ctx g hscope
    exact ⟨d, _, _, .offered rfl rfl (if_neg hin) hd, heq⟩
  | route r gateways =>
    obtain ⟨d, heq, ⟨hpublished, hskipped⟩ | ⟨hpublished, rfl⟩⟩ :=
      route_publishes (b := b) rt ctx r gateways hscope
    · exact ⟨d, _, _, .skipped hpublished hskipped, heq⟩
    · exact ⟨_, _, _, .staged hpublished, heq⟩

end FortigateDns.Source
