import FortigateDns.Spec.Source

/-!
# Discovery: Services and Ingresses

`internal/source/service.go` and `ingress.go`. A Service publishes the hostnames of its annotations:
an ExternalName Service for its external name, a headless one for the addresses of its EndpointSlices,
every other one for its external IPs and the addresses of its load balancer. An Ingress adds the
hosts of its rules. Of the fields of the objects those stand here that discovery reads.
-/

namespace FortigateDns.Source

open Go
open Policy (Labels)

/-- The metadata that are read. -/
structure ObjectMeta where
  objectNamespace : String := ""
  name : String := ""
  uid : String := ""
  generation : Int := 0
  labels : Labels := []
  annotations : Labels := []
  deriving DecidableEq, Repr

/-- An entry of `Status.LoadBalancer.Ingress`. -/
structure LoadBalancerIngress where
  ip : String := ""
  hostname : String := ""
  deriving DecidableEq, Repr

/-- A Service, with the addresses of its status. -/
structure Service extends ObjectMeta where
  type : String := "ClusterIP"
  clusterIP : String := ""
  clusterIPs : List String := []
  externalIPs : List String := []
  externalName : String := ""
  publishNotReadyAddresses : Bool := false
  loadBalancer : List LoadBalancerIngress := []
  deriving DecidableEq, Repr

/-- The families of an EndpointSlice. -/
inductive AddressType
  | ipv4 | ipv6
  | other (name : String)
  deriving DecidableEq, Repr

/-- Each condition may be unset. -/
structure EndpointConditions where
  ready : Option Bool := none
  serving : Option Bool := none
  terminating : Option Bool := none
  deriving DecidableEq, Repr

/-- An endpoint of a slice. -/
structure SliceEndpoint where
  addresses : List String := []
  conditions : EndpointConditions := {}
  deriving DecidableEq, Repr

/-- The addresses behind a headless Service. -/
structure EndpointSlice extends ObjectMeta where
  addressType : AddressType := .ipv4
  endpoints : List SliceEndpoint := []
  deriving DecidableEq, Repr

/-- The label that ties a slice to its Service. -/
def labelServiceName : String := "kubernetes.io/service-name"

/-- An Ingress, with the addresses of its status. -/
structure Ingress extends ObjectMeta where
  ruleHosts : List String := []
  loadBalancer : List LoadBalancerIngress := []
  deriving DecidableEq, Repr

/-- The reference in events. -/
def Service.ref (service : Service) : SourceRef :=
  ⟨"v1", "Service", service.objectNamespace, service.name, service.uid⟩

/-- The reference in events. -/
def Ingress.ref (ingress : Ingress) : SourceRef :=
  ⟨"networking.k8s.io/v1", "Ingress", ingress.objectNamespace, ingress.name, ingress.uid⟩

/-- Addresses count only where there are no names. -/
def preferHostnames (hostnames ips : List String) : List String := if hostnames.isEmpty then ips else hostnames

/-- The variables of the loops over the addresses of a load balancer. -/
structure BalancerState where
  hostnames : List String := []
  ips : List String := []
  result : Result

/-- The body of these loops in `serviceTargets` and `ingressTargets`. -/
def BalancerState.item (rt : SourceRuntime) (described : String) (ref : SourceRef) (st : BalancerState)
    (item : LoadBalancerIngress) : BalancerState :=
  if item.hostname ≠ "" then
    match validTargetHostname rt item.hostname with
    | some name => { st with hostnames := st.hostnames ++ [name] }
    | none =>
      let message := described ++ " " ++ rt.quote item.hostname ++ " is not a valid DNS hostname; skipping"
      { st with result := st.result.addEvent ref "" message }
  else if item.ip ≠ "" then { st with ips := st.ips ++ [item.ip] }
  else st

/-- The external addresses and those of the load balancer. -/
def serviceTargets (rt : SourceRuntime) (service : Service) (r : Result) (ref : SourceRef) :
    Result × List String :=
  let st : BalancerState := { ips := service.externalIPs, result := r }
  let st :=
    if service.type = "LoadBalancer" then
      service.loadBalancer.foldl (BalancerState.item rt "LoadBalancer hostname" ref) st
    else st
  (st.result, preferHostnames st.hostnames st.ips)

/-- The addresses of the load balancer. -/
def ingressTargets (rt : SourceRuntime) (ingress : Ingress) (r : Result) (ref : SourceRef) :
    Result × List String :=
  let st := ingress.loadBalancer.foldl (BalancerState.item rt "Ingress load balancer hostname" ref)
    { result := r }
  (st.result, preferHostnames st.hostnames st.ips)

/-- `endpointEligible`: an endpoint whose readiness is unknown is eligible. -/
def endpointEligible (conditions : EndpointConditions) (publishNotReady : Bool) : Bool :=
  publishNotReady ||
    (conditions.terminating != some true && conditions.serving != some false && conditions.ready != some false)

/-- The variables of `headlessTargets`. -/
structure HeadlessState where
  targets : List String := []
  unsupportedTypeReported : Bool := false
  invalidFamilyReported : Bool := false
  result : Result := {}

/-- The report of an address that does not match its slice, once for each Service. -/
def HeadlessState.reportFamily (st : HeadlessState) (ref : SourceRef) : HeadlessState :=
  if st.invalidFamilyReported then st
  else { st with
    result := st.result.addEvent ref ""
      "EndpointSlice address does not match its declared IP address family; skipping"
    invalidFamilyReported := true }

/-- The report of a slice with another type of addresses, once for each Service. -/
def HeadlessState.reportType (st : HeadlessState) (ref : SourceRef) : HeadlessState :=
  if st.unsupportedTypeReported then st
  else { st with
    result := st.result.addEvent ref ""
      "EndpointSlice address type is unsupported; only IPv4 and IPv6 are published"
    unsupportedTypeReported := true }

/-- The address in its canonical form, if it is one of the family of its slice. -/
def familyAddress (addressType : AddressType) (address : String) : Option String :=
  match parseIP (trimSpace address) with
  | none => none
  | some ip =>
    if (addressType = .ipv4 ∧ ip.to4.isSome = false) ∨ (addressType = .ipv6 ∧ ip.to4.isSome = true) then none
    else some ip.toText

/-- One address of the inner loop of `headlessTargets`. -/
def HeadlessState.address (addressType : AddressType) (ref : SourceRef) (st : HeadlessState) (address : String) :
    HeadlessState :=
  match familyAddress addressType address with
  | none => st.reportFamily ref
  | some text => if text ∈ st.targets then st else { st with targets := st.targets ++ [text] }

/-- One endpoint of a slice. -/
def HeadlessState.endpoint (service : Service) (addressType : AddressType) (ref : SourceRef) (st : HeadlessState)
    (endpoint : SliceEndpoint) : HeadlessState :=
  if endpointEligible endpoint.conditions service.publishNotReadyAddresses then
    endpoint.addresses.foldl (HeadlessState.address addressType ref) st
  else st

/-- One slice of the outer loop of `headlessTargets`. -/
def HeadlessState.slice (service : Service) (ref : SourceRef) (st : HeadlessState) (slice : EndpointSlice) :
    HeadlessState :=
  if slice.objectNamespace ≠ service.objectNamespace ∨
      value slice.labels labelServiceName ≠ service.name then st
  else if slice.addressType ≠ .ipv4 ∧ slice.addressType ≠ .ipv6 then st.reportType ref
  else slice.endpoints.foldl (HeadlessState.endpoint service slice.addressType ref) st

/-- The order of EndpointSlices, by namespace and name. -/
def sliceLE (a b : EndpointSlice) : Bool :=
  if a.objectNamespace ≠ b.objectNamespace then a.objectNamespace < b.objectNamespace
  else a.name ≤ b.name

/-- The addresses of the slices, sorted. -/
def headlessTargets (service : Service) (slices : List EndpointSlice) (ref : SourceRef) : List String × Result :=
  let st := (slices.insertionSort fun a b => sliceLE a b).foldl (HeadlessState.slice service ref) {}
  (sortStrings st.targets, st.result)

/-- A cluster address is `None`. -/
def isHeadlessService (service : Service) : Bool :=
  equalFold service.clusterIP "None" || service.clusterIPs.any fun clusterIP => equalFold clusterIP "None"

/-- What the policy hook says, if there is one. -/
def servicePublicationDecision (service : Service) (opts : Options) (mode : ServicePublicationMode) :
    PublicationDecision :=
  match opts.servicePublicationPolicy with
  | none => .unspecified
  | some policy =>
    policy ⟨mode, service.objectNamespace, service.name, service.labels, service.annotations⟩

/-- The external name is the target. -/
def endpointsFromExternalNameService (rt : SourceRuntime) (ctx : Context) (service : Service)
    (hostnames : List String) (opts : Options) (ref : SourceRef) (budget : EndpointBudget) : Discovered :=
  let skip (message : String) : Discovered :=
    { result := Result.addEvent {} ref "" message, budget := budget, ctx := ctx }
  let target := normalizeDNSName service.externalName
  if !opts.publishExternalNameServices then skip "ExternalName publication is disabled; skipping"
  else if servicePublicationDecision service opts .externalName = .deny then
    skip "policy denied ExternalName publication"
  else if (parseIP target).isSome then
    skip "ExternalName target must be a DNS hostname, not an IP address; skipping"
  else if target = "" ∨ target = "*" ∨ hasPrefix target "*." ∨ isDNS1123Subdomain target = false then
    skip "ExternalName target is not a valid DNS hostname; skipping"
  else
    let (r, ttl) := Result.ttlOrDefault rt {} ref service.annotations opts.defaultTTL
    budget.appendSource rt ctx r opts sourceService ref hostnames [target] ttl

/-- The annotation that asks for the publication of a headless Service. -/
def headlessAnnotated (service : Service) : Bool :=
  equalFold (trimSpace (value service.annotations annotationPublishHeadless)) "true"

/-- The addresses of the slices are the targets. -/
def endpointsFromHeadlessService (rt : SourceRuntime) (ctx : Context) (service : Service)
    (slices : List EndpointSlice)
    (hostnames : List String) (opts : Options) (ref : SourceRef) (budget : EndpointBudget) : Discovered :=
  let skip (r : Result) : Discovered := { result := r, budget := budget, ctx := ctx }
  let annotationValue := value service.annotations annotationPublishHeadless
  let annotationPresent := (service.annotations.lookup annotationPublishHeadless).isSome
  let annotated := headlessAnnotated service
  let decision := servicePublicationDecision service opts .headless
  if !opts.publishHeadlessServices then
    if annotated ∨ decision = .allow then
      skip (Result.addEvent {} ref "" "headless Service publication is disabled; skipping")
    else skip {}
  else if decision = .deny then skip (Result.addEvent {} ref "" "policy denied headless Service publication")
  else if annotationPresent ∧ trimSpace annotationValue ≠ "" ∧ annotated = false ∧
      equalFold (trimSpace annotationValue) "false" = false then
    skip (Result.addEvent {} ref "" "headless publication annotation must be true or false; skipping")
  else if annotated = false ∧ decision ≠ .allow then skip {}
  else
    let (r, ttl) := Result.ttlOrDefault rt {} ref service.annotations opts.defaultTTL
    let (targets, targetResult) := headlessTargets service slices ref
    let r := r.merge targetResult
    if targets.isEmpty then skip (r.addEvent ref "" "headless Service has no publishable EndpointSlice address")
    else budget.appendSource rt ctx r opts sourceService ref hostnames targets ttl

/-- The publication of a Service that is neither ExternalName nor headless. -/
def endpointsFromAddressedService (rt : SourceRuntime) (ctx : Context) (service : Service)
    (hostnames : List String) (opts : Options) (ref : SourceRef) (budget : EndpointBudget) : Discovered :=
  let (r, ttl) := Result.ttlOrDefault rt {} ref service.annotations opts.defaultTTL
  let (r, targets) := serviceTargets rt service r ref
  if targets.isEmpty then
    let message :=
      if service.type = "LoadBalancer" then "LoadBalancer service has no published status address yet"
      else "service type " ++ rt.quote service.type ++
        " is not published; only LoadBalancer status addresses and ExternalIPs are supported"
    { result := r.addEvent ref "" message, budget := budget, ctx := ctx }
  else budget.appendSource rt ctx r opts sourceService ref hostnames targets ttl

/-- By the type of the Service. -/
def endpointsFromService (rt : SourceRuntime) (ctx : Context) (service : Service) (slices : List EndpointSlice)
    (opts : Options) (budget : EndpointBudget) : Discovered :=
  if opts.sourceEnabled sourceService = false ∨ opts.namespaceAllowed service.objectNamespace = false then
    { budget := budget, ctx := ctx }
  else
    let ref := service.ref
    let hostnames := hostnamesFromAnnotations rt service.annotations
    let merged (d : Discovered) : Discovered := { d with result := Result.merge {} d.result }
    let discovered : Discovered :=
      if hostnames.isEmpty then { budget := budget, ctx := ctx }
      else if service.type = "ExternalName" then
        merged (endpointsFromExternalNameService rt ctx service hostnames opts ref budget)
      else if isHeadlessService service then
        merged (endpointsFromHeadlessService rt ctx service slices hostnames opts ref budget)
      else endpointsFromAddressedService rt ctx service hostnames opts ref budget
    discovered.describe ref service.labels service.annotations

/-- The names of the rules and annotations. -/
def endpointsFromIngress (rt : SourceRuntime) (ctx : Context) (ingress : Ingress) (opts : Options)
    (budget : EndpointBudget) : Discovered :=
  if opts.sourceEnabled sourceIngress = false ∨ opts.namespaceAllowed ingress.objectNamespace = false then
    { budget := budget, ctx := ctx }
  else
    let ref := ingress.ref
    let hostnames := uniqueSorted
      (hostnamesFromAnnotations rt ingress.annotations ++ ingress.ruleHosts.filter (· ≠ ""))
    let discovered : Discovered :=
      if hostnames.isEmpty then { budget := budget, ctx := ctx }
      else
        let (r, ttl) := Result.ttlOrDefault rt {} ref ingress.annotations opts.defaultTTL
        let (r, targets) := ingressTargets rt ingress r ref
        budget.appendSource rt ctx r opts sourceIngress ref hostnames targets ttl
    discovered.describe ref ingress.labels ingress.annotations

end FortigateDns.Source
