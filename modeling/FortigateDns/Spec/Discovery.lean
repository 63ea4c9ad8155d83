import FortigateDns.Spec.GatewaySource

/-!
# Discovery: one pass

`internal/source/kubernetes.go`: `Discover` lists the namespaces in scope, publishes Services and
Ingresses as they are listed, and then the Gateways and the routes attached to them, all against
one budget. The answers of the API are parameters; a list request that is repeated in a pass gets
the answer for its namespace again.
-/

namespace FortigateDns.Source

open Go
open Policy (Labels)

/-- The EndpointSlice informer: whether it says that it is synchronized, and its cache. -/
structure EndpointSliceLister where
  cacheSynced : Option Bool
  list : String → Except DiscoveryError (List EndpointSlice)

/-- `KubernetesClients`: the answer to every request of a pass. The namespace `""` stands for all. -/
structure KubernetesClients where
  services : String → Except DiscoveryError (List Service)
  ingresses : String → Except DiscoveryError (List Ingress)
  endpointSliceLister : Option EndpointSliceLister := none
  endpointSlices : String → Except DiscoveryError (List EndpointSlice)
  httpRoutes : String → Except DiscoveryError (List HTTPRoute)
  gateways : String → Except DiscoveryError (List Gateway)
  namespaceLabels : String → Option Labels

/-- No list stands for all namespaces. -/
def namespacesForList (namespaces : List String) : List String := if namespaces.isEmpty then [""] else namespaces

/-- A loop over the objects of a list that ends with the first error. -/
def forEach {α : Type} (step : Discovered → α → Discovered) : List α → Discovered → Discovered
  | [], d => d
  | a :: rest, d =>
    let d := step d a
    if d.err.isSome then d else forEach step rest d

/-- `result.Merge(discovered)`, with the error of what was discovered. -/
def Discovered.absorb (d other : Discovered) : Discovered := { other with result := d.result.merge other.result }

/-- From the cache, if there is one. -/
def listEndpointSlices (clients : KubernetesClients) (objectNamespace : String) :
    Except DiscoveryError (List EndpointSlice) :=
  match clients.endpointSliceLister with
  | some lister => if lister.cacheSynced = some true then lister.list objectNamespace else .error .notSynced
  | none => clients.endpointSlices objectNamespace

/-- Some headless Service may be published. -/
def endpointSlicesNeeded (rt : SourceRuntime) (services : List Service) (opts : Options) : Bool :=
  opts.publishHeadlessServices && services.any fun service =>
    isHeadlessService service && !(hostnamesFromAnnotations rt service.annotations).isEmpty &&
      servicePublicationDecision service opts .headless != .deny &&
      (headlessAnnotated service || servicePublicationDecision service opts .headless == .allow)

/-- The slices of a Service, sorted. -/
def indexEndpointSlices (slices : List EndpointSlice) (serviceName : String) : List EndpointSlice :=
  (slices.filter fun slice =>
    trimSpace (value slice.labels labelServiceName) ≠ "" ∧
      trimSpace (value slice.labels labelServiceName) = serviceName).insertionSort fun a b => sliceLE a b

/-- The EndpointSlices of a namespace, as far as its Services need them. -/
def discoverSlices (rt : SourceRuntime) (clients : KubernetesClients) (opts : Options) (objectNamespace : String)
    (services : List Service) (r : Result) : Result × List EndpointSlice :=
  if !endpointSlicesNeeded rt services opts then (r, [])
  else
    match listEndpointSlices clients objectNamespace with
    | .ok slices => (r, slices)
    | .error err =>
      let r := r.markIncomplete sourceService
      let ref : SourceRef := { kind := "EndpointSlice", sourceNamespace := objectNamespace }
      match err with
      | .notSynced => (r.addInfoEvent ref ""
          "EndpointSlice informer cache is not synchronized; headless Service discovery is incomplete", [])
      | .unavailable => (r.addInfoEvent ref ""
          "EndpointSlice resource is unavailable; headless Service discovery is incomplete", [])
      | _ => (r.addEvent ref "" "EndpointSlice list failed; headless Service discovery is incomplete", [])

/-- The Services of a namespace. -/
def discoverServices (rt : SourceRuntime) (clients : KubernetesClients) (opts : Options)
    (objectNamespace : String) (d : Discovered) : Discovered :=
  if !opts.sourceEnabled sourceService then d
  else
    match clients.services objectNamespace with
    | .error err => { d with err := some err }
    | .ok services =>
      let (r, slices) := discoverSlices rt clients opts objectNamespace services d.result
      forEach (fun d service =>
        let (canceled, ctx) := d.ctx.err
        if canceled then
          { d with result := d.result.markIncomplete sourceService, ctx := ctx, err := some .canceled }
        else
          d.absorb (endpointsFromService rt ctx service (indexEndpointSlices slices service.name) opts d.budget))
        services { d with result := r }

/-- The Ingresses of a namespace. -/
def discoverIngresses (rt : SourceRuntime) (clients : KubernetesClients) (opts : Options)
    (objectNamespace : String) (d : Discovered) : Discovered :=
  if !opts.sourceEnabled sourceIngress then d
  else
    match clients.ingresses objectNamespace with
    | .error err => { d with err := some err }
    | .ok ingresses =>
      forEach (fun d ingress => d.absorb (endpointsFromIngress rt d.ctx ingress opts d.budget)) ingresses d

/-- The first loop of `Discover`, for one namespace. -/
def discoverNamespace (rt : SourceRuntime) (clients : KubernetesClients) (opts : Options) (d : Discovered)
    (objectNamespace : String) : Discovered :=
  let (canceled, ctx) := d.ctx.err
  if canceled then { d with ctx := ctx, err := some .canceled }
  else
    let d := discoverServices rt clients opts objectNamespace { d with ctx := ctx }
    if d.err.isSome then d else discoverIngresses rt clients opts objectNamespace d

/-- `discoverHTTPRoutes`: the routes of all namespaces, or `none` if the API has no such resource. -/
def discoverHTTPRoutes (clients : KubernetesClients) : List String → Except DiscoveryError
    (Option (List HTTPRoute))
  | [] => .ok (some [])
  | objectNamespace :: rest =>
    match clients.httpRoutes objectNamespace with
    | .error .unavailable => .ok none
    | .error err => .error err
    | .ok routes => (discoverHTTPRoutes clients rest).map (·.map (routes ++ ·))

/-- The namespace of the Gateway that a parent reference names. -/
def ParentReference.gatewayNamespace (route : HTTPRoute) (parent : ParentReference) : String :=
  parent.parentNamespace.getD route.objectNamespace

/-- Gateways of other namespaces count if a route names them. -/
def gatewayNamespacesForList (opts : Options) (routes : List HTTPRoute) : List String :=
  if opts.namespaces.isEmpty then [""]
  else
    let parents := routes.flatMap fun route => (route.parentRefs.map (·.gatewayNamespace route)).filter fun ns =>
      opts.namespaceAllowed ns || opts.gatewayTargetNamespaceAllowed ns
    sortStrings ((opts.namespaces ++ opts.gatewayTargetNamespaces ++ parents).filter (· ≠ "")).dedup

/-- The Gateways of one namespace. -/
def discoverListedGateways (rt : SourceRuntime) (opts : Options) :
    List Gateway → GoMap Gateway → Discovered → GoMap Gateway × Discovered
  | [], gateways, d => (gateways, d)
  | gateway :: rest, gateways, d =>
    let (canceled, ctx) := d.ctx.err
    if canceled then
      (gateways, { d with result := d.result.markIncomplete sourceGateway, ctx := ctx, err := some .canceled })
    else
      let gateways := GoMap.set gateways (gatewayMapKey gateway.objectNamespace gateway.name) gateway
      let d := d.absorb (endpointsFromGateway rt ctx gateway opts d.budget)
      if d.err.isSome then (gateways, d) else discoverListedGateways rt opts rest gateways d

/-- `discoverGateways`: `none` if the pass ends here. -/
def discoverGateways (rt : SourceRuntime) (clients : KubernetesClients) (opts : Options) :
    List String → GoMap Gateway → Discovered → Option (GoMap Gateway) × Discovered
  | [], gateways, d => (some gateways, d)
  | objectNamespace :: rest, gateways, d =>
    match clients.gateways objectNamespace with
    | .error .unavailable =>
      let r := (d.result.markIncomplete sourceGateway).addInfoEvent { kind := "Gateway" } ""
        "Gateway API Gateway resource is unavailable; skipping gateway source"
      (none, { d with result := r })
    | .error err => (none, { d with err := some err })
    | .ok listed =>
      let (gateways, d) := discoverListedGateways rt opts listed gateways d
      if d.err.isSome then (none, d) else discoverGateways rt clients opts rest gateways d

/-- The routes, once the Gateways are known. -/
def discoverAttached (rt : SourceRuntime) (opts : Options) (routes : List HTTPRoute) (gateways : GoMap Gateway)
    (d : Discovered) : Discovered :=
  forEach (fun d route => d.absorb (endpointsFromHTTPRoute rt d.ctx route gateways opts d.budget)) routes d

/-- The Gateway part of `Discover`. -/
def discoverGatewaySource (rt : SourceRuntime) (clients : KubernetesClients) (opts : Options) (d : Discovered) :
    Discovered :=
  match discoverHTTPRoutes clients (namespacesForList opts.namespaces) with
  | .error err => { d with err := some err }
  | .ok none =>
    let r := (Result.markIncomplete {} sourceGateway).addInfoEvent { kind := "HTTPRoute" } ""
      "Gateway API HTTPRoute resource is unavailable; skipping gateway source"
    { d with result := d.result.merge r }
  | .ok (some routes) =>
    match discoverGateways rt clients opts (gatewayNamespacesForList opts routes) ∅ { d with result := {} } with
    | (none, listed) => d.absorb listed
    | (some gateways, listed) => discoverAttached rt opts routes gateways (d.absorb listed)

/-- The options of a pass: without a reader of namespace labels the API is asked, once a name. -/
def Options.withNamespaceLabels (opts : Options) (clients : KubernetesClients) : Options :=
  { opts with namespaceLabels := opts.namespaceLabels <|> some clients.namespaceLabels }

/-- `Discover`: namespace by namespace, the Gateways last. -/
def discover (rt : SourceRuntime) (ctx : Context) (clients : KubernetesClients) (opts : Options) : Discovered :=
  let opts := opts.withNamespaceLabels clients
  let d := forEach (discoverNamespace rt clients opts) (namespacesForList opts.namespaces)
    { budget := newEndpointBudget opts, ctx := ctx }
  if d.err.isSome || !opts.sourceEnabled sourceGateway then d else discoverGatewaySource rt clients opts d

end FortigateDns.Source
