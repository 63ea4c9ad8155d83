import FortigateDns.Spec.ServiceSource
import Mathlib.Algebra.GroupWithZero.Nat

/-!
# Discovery: Gateways and HTTPRoutes

`internal/source/gateway.go`. A Gateway publishes the hostnames of its listeners for its addresses.
An HTTPRoute publishes its hostnames, as far as a listener of an accepted parent serves them, for
the addresses of the parents that do. The attachments of a route share one budget: they are staged
against a copy of it, which is committed if all of them fit.
-/

namespace FortigateDns.Source

open Go
open Policy (Labels LabelSelector)

/-- The protocols of listeners that are told apart. -/
inductive Protocol
  | http | https
  | other (name : String)
  deriving DecidableEq, Repr

/-- Where routes may come from. -/
inductive FromNamespaces
  | all | selector | same
  | other (name : String)
  deriving DecidableEq, Repr

/-- The namespaces of routes that may attach. -/
structure RouteNamespaces where
  source : Option FromNamespaces := none
  selector : Option LabelSelector := none
  deriving DecidableEq, Repr

/-- A kind of route that may attach. -/
structure RouteGroupKind where
  group : Option String := none
  kind : String
  deriving DecidableEq, Repr

/-- Which routes may attach to a listener. -/
structure AllowedRoutes where
  namespaces : Option RouteNamespaces := none
  kinds : List RouteGroupKind := []
  deriving DecidableEq, Repr

/-- The parts of a listener that are read. -/
structure Listener where
  name : String := ""
  hostname : Option String := none
  port : Int := 0
  protocol : Protocol := .http
  allowedRoutes : Option AllowedRoutes := none
  deriving DecidableEq, Repr

/-- The types of addresses that are told apart. -/
inductive GatewayAddressType
  | ipAddress | hostname
  | other (name : String)
  deriving DecidableEq, Repr

/-- An address of the status. -/
structure GatewayAddress where
  type : Option GatewayAddressType := none
  value : String
  deriving DecidableEq, Repr

/-- A Gateway, with the addresses of its status. -/
structure Gateway extends ObjectMeta where
  listeners : List Listener := []
  addresses : List GatewayAddress := []
  deriving DecidableEq, Repr

/-- The Gateway that a route wants to attach to. -/
structure ParentReference where
  group : Option String := none
  kind : Option String := none
  parentNamespace : Option String := none
  name : String
  sectionName : Option String := none
  port : Option Int := none
  deriving DecidableEq, Repr

/-- The value of a condition. -/
inductive ConditionStatus
  | isTrue | isFalse | unknown
  deriving DecidableEq, Repr

/-- A condition of the status. -/
structure Condition where
  type : String
  status : ConditionStatus
  observedGeneration : Int
  deriving DecidableEq, Repr

/-- What a parent says of the route. -/
structure RouteParentStatus where
  parentRef : ParentReference
  conditions : List Condition := []
  deriving DecidableEq, Repr

/-- A route, with the status that its parents wrote. -/
structure HTTPRoute extends ObjectMeta where
  parentRefs : List ParentReference := []
  hostnames : List String := []
  parents : List RouteParentStatus := []
  deriving DecidableEq, Repr

/-- `gatewayv1.GroupName`. -/
def gatewayGroup : String := "gateway.networking.k8s.io"

/-- `gatewaySourceRef`. -/
def Gateway.ref (gateway : Gateway) : SourceRef :=
  ⟨gatewayGroup ++ "/v1", "Gateway", gateway.objectNamespace, gateway.name, gateway.uid⟩

/-- The reference in events. -/
def HTTPRoute.ref (route : HTTPRoute) : SourceRef :=
  ⟨gatewayGroup ++ "/v1", "HTTPRoute", route.objectNamespace, route.name, route.uid⟩

/-- Names and addresses are kept apart. -/
structure GatewayAddressTargets where
  hostnames : List String := []
  ips : List String := []
  deriving DecidableEq, Repr

/-- As `preferHostnames`. -/
def GatewayAddressTargets.values (t : GatewayAddressTargets) : List String := preferHostnames t.hostnames t.ips

/-- Both lists are joined. -/
def GatewayAddressTargets.append (t other : GatewayAddressTargets) : GatewayAddressTargets :=
  ⟨t.hostnames ++ other.hostnames, t.ips ++ other.ips⟩

/-- `validGatewayHostname`: labels of ASCII letters and digits with hyphens inside, of any case. -/
def validGatewayHostname (text : String) : Bool :=
  let name := normalizeDNSName text
  if name = "" ∨ 253 < name.toList.length ∨ name = "*" ∨ hasPrefix name "*." then false
  else (labels name.toList).all fun label =>
    !label.isEmpty && decide (label.length ≤ 63) && label.head?.any isAlnum && label.getLast?.any isAlnum &&
      label.all fun c => isAlnum c || c == '-'

/-- One address of `collectGatewayTargets`. -/
def collectAddress (rt : SourceRuntime) (ref : SourceRef) (st : GatewayAddressTargets × Result)
    (address : GatewayAddress) : GatewayAddressTargets × Result :=
  let text := trimSpace address.value
  match address.type.getD .ipAddress with
  | .ipAddress =>
    match parseIP text with
    | some ip => ({ st.1 with ips := st.1.ips ++ [ip.toText] }, st.2)
    | none =>
      (st.1, st.2.addEvent ref ""
        ("Gateway IPAddress value " ++ rt.quote text ++ " is not a valid IP address; skipping"))
  | .hostname =>
    if validGatewayHostname text ∧ (parseIP text).isNone then
      ({ st.1 with hostnames := st.1.hostnames ++ [text] }, st.2)
    else
      (st.1, st.2.addEvent ref ""
        ("Gateway Hostname value " ++ rt.quote text ++ " is not a valid DNS hostname; skipping"))
  | .other name =>
    (st.1, st.2.addEvent ref ""
      ("Gateway address type " ++ rt.quote name ++ " is not supported for DNS publication; skipping"))

/-- The addresses of the status that are usable. -/
def collectGatewayTargets (rt : SourceRuntime) (gateway : Gateway) (r : Result) :
    GatewayAddressTargets × Result :=
  gateway.addresses.foldl (collectAddress rt gateway.ref) ({}, r)

/-- A Gateway publishes the names of its listeners. -/
def endpointsFromGateway (rt : SourceRuntime) (ctx : Context) (gateway : Gateway) (opts : Options)
    (budget : EndpointBudget) : Discovered :=
  if opts.sourceEnabled sourceGateway = false ∨ opts.namespaceAllowed gateway.objectNamespace = false then
    { budget := budget, ctx := ctx }
  else
    let ref := gateway.ref
    let hostnames := uniqueSorted (gateway.listeners.filterMap Listener.hostname)
    let discovered : Discovered :=
      if hostnames.isEmpty then { budget := budget, ctx := ctx }
      else
        let (targets, r) := collectGatewayTargets rt gateway {}
        budget.appendSource rt ctx r opts sourceGateway ref hostnames targets.values opts.defaultTTL
    discovered.describe ref gateway.labels gateway.annotations

/-- Gateways are found by namespace and name. -/
def gatewayMapKey (objectNamespace name : String) : String := objectNamespace ++ "/" ++ name

/-- Group and kind have defaults. -/
def parentRefIsGateway (ref : ParentReference) : Bool :=
  ref.group.getD gatewayGroup == gatewayGroup && ref.kind.getD "Gateway" == "Gateway"

/-- A reference with its defaults, as a text. -/
def parentRefKey (defaultNamespace : String) (ref : ParentReference) : String :=
  ref.group.getD gatewayGroup ++ "/" ++ ref.kind.getD "Gateway" ++ "/" ++
    ref.parentNamespace.getD defaultNamespace ++ "/" ++ ref.name ++ "/" ++
    ref.sectionName.getD "" ++ "/" ++ (ref.port.map toString).getD ""

/-- The condition was written for this generation. -/
def hasCurrentCondition (conditions : List Condition) (type : String) (status : ConditionStatus)
    (generation : Int) :
    Bool :=
  conditions.any fun c => c.type == type && c.status == status && c.observedGeneration == generation

/-- The parents that accept the route and resolve its references. -/
def acceptedParentRefs (route : HTTPRoute) : List String :=
  (route.parents.filter fun parent =>
    hasCurrentCondition parent.conditions "Accepted" .isTrue route.generation &&
      hasCurrentCondition parent.conditions "ResolvedRefs" .isTrue route.generation).map fun parent =>
    parentRefKey route.objectNamespace parent.parentRef

/-- A condition of a type that is decided for a generation. -/
def decided (conditions : List Condition) (type : String) (generation : Int) : Bool :=
  conditions.any fun c => c.observedGeneration == generation && c.status != .unknown && c.type == type

/-- Every parent that is a Gateway has decided on this generation. -/
def routeStatusCurrent (route : HTTPRoute) : Bool :=
  route.parentRefs.all fun ref =>
    !parentRefIsGateway ref || route.parents.any fun parent =>
      parentRefKey route.objectNamespace parent.parentRef == parentRefKey route.objectNamespace ref &&
        decided parent.conditions "Accepted" route.generation && decided
          parent.conditions "ResolvedRefs" route.generation

/-- The listeners that the reference selects. -/
def attachedListeners (gateway : Gateway) (parent : ParentReference) : List Listener :=
  gateway.listeners.filter fun listener =>
    (parent.sectionName.isNone || parent.sectionName == some listener.name) &&
      (parent.port.isNone || parent.port == some listener.port)

/-- The kinds of routes a listener admits. -/
def AllowedRoutes.admitsHTTPRoute (allowed : AllowedRoutes) : Bool :=
  allowed.kinds.isEmpty || allowed.kinds.any fun kind =>
    kind.kind == "HTTPRoute" && (kind.group.isNone || kind.group == some gatewayGroup)

/-- `listenerAllowsHTTPRoute`; `none` if the namespaces of the listener cannot be evaluated. -/
def listenerAllowsHTTPRoute (rt : SourceRuntime) (listener : Listener) (gatewayNamespace routeNamespace : String)
    (opts : Options) : Option Bool :=
  if listener.protocol ≠ .http ∧ listener.protocol ≠ .https then some false
  else if listener.allowedRoutes.any fun allowed => !allowed.admitsHTTPRoute then some false
  else
    match listener.allowedRoutes.bind AllowedRoutes.namespaces with
    | none => some (gatewayNamespace == routeNamespace)
    | some namespaces =>
      match namespaces.source with
      | none => some (gatewayNamespace == routeNamespace)
      | some .same => some (gatewayNamespace == routeNamespace)
      | some .all => some true
      | some .selector =>
        match namespaces.selector, opts.namespaceLabels with
        | some selector, some namespaceLabels =>
          match rt.selectors selector with
          | none => none
          | some matching => (namespaceLabels routeNamespace).map matching
        | _, _ => none
      | some (.other _) => none

/-- The more specific of two names, if one covers the other. -/
def intersectHostname (routeHost listenerHost : String) : Option String :=
  if listenerHost = "" ∨ listenerHost = routeHost then some routeHost
  else
    let routeWild := hasPrefix routeHost "*."
    let listenerWild := hasPrefix listenerHost "*."
    let routeTail := String.ofList (routeHost.toList.drop 1)
    let listenerTail := String.ofList (listenerHost.toList.drop 1)
    if listenerWild && !routeWild then if hasSuffix routeHost listenerTail then some routeHost else none
    else if !listenerWild && routeWild then if hasSuffix listenerHost routeTail then some listenerHost else none
    else if listenerWild && routeWild then
      if hasSuffix routeHost listenerTail then some routeHost
      else if hasSuffix listenerHost routeTail then some listenerHost
      else none
    else none

/-- The variables of the loops of `targetsForHTTPRoute`. -/
structure RouteState where
  targetsByHost : GoMap GatewayAddressTargets := ∅
  parentHosts : List String := []
  matchedHosts : List String := []
  result : Result := {}

/-- One hostname of a route at a listener. -/
def RouteState.intersect (listenerHost : String) (st : RouteState) (host : String) : RouteState :=
  match intersectHostname host listenerHost with
  | none => st
  | some merged =>
    { st with parentHosts := st.parentHosts.insert merged, matchedHosts := st.matchedHosts.insert host }

/-- One attached listener of a parent. -/
def RouteState.listener (rt : SourceRuntime) (route : HTTPRoute) (gateway : Gateway) (hostnames : List String)
    (opts : Options) (st : RouteState) (listener : Listener) : RouteState :=
  match listenerAllowsHTTPRoute rt listener gateway.objectNamespace route.objectNamespace opts with
  | none =>
    let r := st.result.markIncomplete sourceGateway
    { st with
      result := r.addEvent route.ref "" "cannot verify Gateway listener namespace selector; suppressing cleanup" }
  | some false => st
  | some true => hostnames.foldl (RouteState.intersect (normalizeDNSName (listener.hostname.getD ""))) st

/-- The addresses of a parent are added to every name it serves. -/
def RouteState.addTargets (targets : GatewayAddressTargets) (st : RouteState) (host : String) : RouteState :=
  let collected : GatewayAddressTargets := (st.targetsByHost.lookup host).getD {}
  { st with targetsByHost := GoMap.set st.targetsByHost host (collected.append targets) }

/-- One parent of a route. -/
def RouteState.parent (rt : SourceRuntime) (route : HTTPRoute) (gateways : GoMap Gateway)
    (acceptedParents : List String)
    (hostnames : List String) (opts : Options) (st : RouteState) (parent : ParentReference) : RouteState :=
  if parentRefIsGateway parent = false ∨ parentRefKey route.objectNamespace parent ∉ acceptedParents then st
  else
    match gateways.lookup (gatewayMapKey (parent.parentNamespace.getD route.objectNamespace) parent.name) with
    | none => st
    | some gateway =>
      let (targets, r) := collectGatewayTargets rt gateway st.result
      let st := (attachedListeners gateway parent).foldl (RouteState.listener rt route gateway hostnames opts)
        { st with parentHosts := [], result := r }
      st.parentHosts.foldl (RouteState.addTargets targets) st

/-- The targets of each name that a parent serves. -/
def targetsForHTTPRoute (rt : SourceRuntime) (route : HTTPRoute) (gateways : GoMap Gateway)
    (acceptedParents : List String)
    (hostnames : List String) (opts : Options) (r : Result) : GoMap GatewayAddressTargets × Result :=
  let st := route.parentRefs.foldl (RouteState.parent rt route gateways acceptedParents hostnames opts)
    { result := r }
  let unmatched := hostnames.filter fun host => !st.matchedHosts.contains host
  (st.targetsByHost, unmatched.foldl (fun r host => r.addEvent route.ref host
    "HTTPRoute hostname does not intersect any attached Gateway listener hostname; skipping") st.result)

/-- Some name of the route could be in scope. -/
def routeHostnamesMayPublish (rt : SourceRuntime) (hostnames : List String) (opts : Options) : Bool :=
  let zone := normalizeDNSName opts.zone
  hostnames.any fun raw =>
    let host := normalizeHostname rt raw
    if validHostname host = false ∨ host = "*" then true
    else if hasPrefix host "*." then
      let suffix := trimPrefix host "*."
      suffix == zone || hasSuffix suffix ("." ++ zone) || hasSuffix zone ("." ++ suffix)
    else opts.domainAllowed host && opts.hostInZone host && host != zone

/-- The targets of a name that a route serves. -/
def targetsOf (targetsByHost : GoMap GatewayAddressTargets) (host : String) : List String :=
  ((targetsByHost.lookup host).getD {}).values

/-- The number of endpoints of a route, counted before any is built. -/
def routeExpansion (rt : SourceRuntime) (opts : Options) (ref : SourceRef)
    (targetsByHost : GoMap GatewayAddressTargets) (hosts : List String) : Nat :=
  (hosts.map fun host => (publishableHosts rt {} opts ref [host]).2.length *
    (uniqueSorted (targetsOf targetsByHost host)).length).sum

/-- The loop that stages the hosts of a route: the first that fails or that leaves the source
incomplete takes all endpoints of the route back. -/
def stageHosts (rt : SourceRuntime) (opts : Options) (ref : SourceRef)
    (targetsByHost : GoMap GatewayAddressTargets)
    (budget : EndpointBudget) (limit : Int) : List String → Result → EndpointBudget → Context → Discovered
  | [], r, staged, ctx =>
    { result := r, budget := { budget with remaining := budget.remaining - (limit - staged.remaining) },
      ctx := ctx }
  | host :: rest, r, staged, ctx =>
    let d := staged.appendSource rt ctx r opts sourceGateway ref [host]
      (targetsOf targetsByHost host) opts.defaultTTL
    if d.err.isSome || !d.result.sourceComplete sourceGateway then
      { result := { d.result with endpoints := [] }, budget := budget, ctx := d.ctx, err := d.err }
    else stageHosts rt opts ref targetsByHost budget limit rest d.result d.budget d.ctx

/-- The publication of a route whose parents are accepted. -/
def publishRoute (rt : SourceRuntime) (ctx : Context) (route : HTTPRoute) (gateways : GoMap Gateway)
    (hostnames : List String) (opts : Options) (budget : EndpointBudget) : Discovered :=
  let ref := route.ref
  let (targetsByHost, r) := targetsForHTTPRoute rt route gateways (acceptedParentRefs route) hostnames opts {}
  let limit := min budget.perResource budget.remaining
  let hosts := sortStrings targetsByHost.keys
  let total := routeExpansion rt opts ref targetsByHost hosts
  if limit < total then
    let r := r.markIncomplete sourceGateway
    { result := r.addEvent ref "" ("HTTPRoute endpoint expansion (" ++ toString total ++ " endpoints across " ++
        toString hosts.length ++
        " hostnames and all parent attachments) exceeds discovery budget; rejecting the entire resource")
      budget := budget, ctx := ctx }
  else stageHosts rt opts ref targetsByHost budget limit hosts r ⟨limit, limit⟩ ctx

/-- A route publishes nothing while its status is not current. -/
def endpointsFromHTTPRoute (rt : SourceRuntime) (ctx : Context) (route : HTTPRoute) (gateways : GoMap Gateway)
    (opts : Options) (budget : EndpointBudget) : Discovered :=
  if opts.sourceEnabled sourceGateway = false ∨ opts.namespaceAllowed route.objectNamespace = false then
    { budget := budget, ctx := ctx }
  else
    let ref := route.ref
    let report (r : Result) : Discovered := { result := r, budget := budget, ctx := ctx }
    let hostnames := uniqueSorted route.hostnames
    let discovered : Discovered :=
      if hostnames.isEmpty then
        report (Result.addInfoEvent {} ref ""
          "HTTPRoute declares no hostnames; parent Gateway listener hostnames are the source of truth")
      else if !routeHostnamesMayPublish rt hostnames opts then report {}
      else if !routeStatusCurrent route then
        report ((Result.markIncomplete {} sourceGateway).addEvent ref ""
          "HTTPRoute status is missing or stale for the current generation; suppressing cleanup until the Gateway controller reports status")
      else if (acceptedParentRefs route).isEmpty then
        report (Result.addEvent {} ref "" "HTTPRoute has no accepted parent with resolved references")
      else publishRoute rt ctx route gateways hostnames opts budget
    discovered.describe ref route.labels route.annotations

end FortigateDns.Source
