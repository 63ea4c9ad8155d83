import FortigateDns.Spec.Target

/-!
# Routing endpoints to targets

`internal/target/router.go`: every discovered endpoint goes to each target that accepts it, under
the zone of the target and once for each key. Two write targets that accept one endpoint are an
error, unless both acknowledge the overlap and delete nothing.
-/

namespace FortigateDns

open Go

/-- The endpoints by target, and those without one. -/
structure RoutingResult where
  targetOrder : List String
  byTarget : GoMap (List Endpoint)
  unrouted : List Endpoint

/-- The errors of `RouteEndpoints`. -/
inductive RouteError
  | invalid (err : TargetError)
  /-- `ErrAmbiguousRoute`. -/
  | ambiguousRoute
  deriving DecidableEq, Repr

/-- `gateway` selects routes too. -/
def sourceSelected (configured : List String) (sourceKind : String) : Bool :=
  let sourceKind := toLower (trimSpace sourceKind)
  configured.any fun source =>
    let source := toLower (trimSpace source)
    source == sourceKind || (source == "gateway" && (sourceKind == "gateway" || sourceKind == "httproute"))

/-- Case and white space do not matter. -/
def containsNormalized (values : List String) (value : String) : Bool :=
  values.any fun candidate => toLower (trimSpace candidate) == toLower (trimSpace value)

/-- By name, namespace and source. -/
def targetAcceptsEndpoint (definition : Definition) (endpoint : Endpoint) : Bool :=
  endpoint.dnsName != "" && (domainScopes definition).any
    (fun suffix => suffixContains suffix endpoint.dnsName) &&
    (definition.namespaces.isEmpty || containsNormalized definition.namespaces endpoint.source.sourceNamespace) &&
    (definition.sources.isEmpty || sourceSelected definition.sources endpoint.source.kind)

/-- The loops over the pairs of eligible targets: whether some pair may not write the same name. -/
def ambiguous : List Definition → Bool
  | [] => false
  | left :: rest =>
    (rest.any fun right => !(left.dryRun || right.dryRun || nonDestructiveOverlapAllowed left
      right)) || ambiguous rest

/-- The endpoint as a target gets it. -/
def Definition.routed (definition : Definition) (endpoint : Endpoint) : Endpoint :=
  Endpoint.normalize { endpoint with zone := definition.zone }

/-- The variables of the loop over the endpoints. -/
structure RouteLoop where
  byTarget : GoMap (List Endpoint) := ∅
  seen : GoMap (List String) := ∅
  unrouted : List Endpoint := []

/-- The delivery of an endpoint to one target. -/
def RouteLoop.deliver (endpoint : Endpoint) (st : RouteLoop) (definition : Definition) : RouteLoop :=
  let key := definition.key
  let routed := definition.routed endpoint
  if routed.key ∈ st.seen.slice key then st
  else { st with seen := st.seen.appendAt key routed.key, byTarget := st.byTarget.appendAt key routed }

/-- One endpoint. -/
def RouteLoop.endpoint (definitions : List Definition) (st : RouteLoop) (endpoint : Endpoint) :
    Except RouteError RouteLoop :=
  let endpoint := endpoint.normalize
  let eligible := definitions.filter fun definition => targetAcceptsEndpoint definition endpoint
  if eligible.isEmpty then .ok { st with unrouted := st.unrouted ++ [endpoint] }
  else if ambiguous eligible then .error .ambiguousRoute
  else .ok (eligible.foldl (RouteLoop.deliver endpoint) st)

/-- `sort.Slice` by `Key`. The code leaves the order of endpoints with one key open; here they stay as they
came, and what is proved speaks of the endpoints of a list, not of their order. -/
def sortByKey (endpoints : List Endpoint) : List Endpoint := endpoints.insertionSort fun a b => a.key ≤ b.key

/-- The last loop, which sorts what was routed. -/
def RouteLoop.result (st : RouteLoop) : RoutingResult where
  targetOrder := sortStrings st.byTarget.keys
  byTarget := st.byTarget.keys.foldl (fun m key => m.set key (sortByKey (m.slice key))) st.byTarget
  unrouted := sortByKey st.unrouted

/-- `RouteEndpoints`. The definitions are sorted as in `sortByKey`, ties included. -/
def routeEndpoints (parseURL : String → Option ParsedURL) (definitions : List Definition)
    (endpoints : List Endpoint) :
    Except RouteError RoutingResult :=
  match validateAll parseURL definitions with
  | .error err => .error (.invalid err)
  | .ok checked => do
    let definitions := checked.insertionSort fun a b => a.key ≤ b.key
    let st ← endpoints.foldlM (RouteLoop.endpoint definitions) {}
    return st.result

end FortigateDns
