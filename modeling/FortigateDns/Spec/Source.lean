import FortigateDns.Spec.Policy
import Mathlib.Data.Finset.Image

/-!
# Discovery: options, results and the endpoint budget

`internal/source/options.go`: what a discovery pass may publish, what it reports, and the budget
its endpoints are charged to. A resource offers hostnames and targets; `appendSource` publishes one
endpoint for each pair, or rejects the resource as a whole when there are too many of them.

What Go's libraries decide is a parameter (`SourceRuntime`). A context is the number of times it
is still found alive, so that it may be canceled between any two checks.
-/

namespace FortigateDns.Source

open Go
open Policy (Labels LabelSelector Selectors)

/-- The libraries discovery calls: IDNA conversion, the quoting verb of `fmt`, durations in
nanoseconds and label selectors. -/
structure SourceRuntime where
  toASCII : String → Option String
  quote : String → String
  parseDuration : String → Option Int
  selectors : Selectors

/-- `SourceService`, `SourceIngress` and `SourceGateway`. -/
def sourceService : String := "service"
def sourceIngress : String := "ingress"
def sourceGateway : String := "gateway"

def annotationHostname : String := "external-dns.kubernetes.io/hostname"
def annotationHostnameAlpha : String := "external-dns.alpha.kubernetes.io/hostname"
def annotationTTL : String := "external-dns.kubernetes.io/ttl"
def annotationTTLAlpha : String := "external-dns.alpha.kubernetes.io/ttl"
def annotationPublishHeadless : String := "external-dns.kubernetes.io/publish-headless"

def maxTTL : Int := 604800
def defaultMaxEndpointsPerResource : Int := 1024
def defaultMaxEndpointsPerDiscovery : Int := 10000
def maxDiscoveryEvents : Nat := 1024

/-- `m[key]` of a map of texts. -/
def value (m : Labels) (key : String) : String := (m.lookup key).getD ""

/-- The Services that a policy decides about. -/
inductive ServicePublicationMode
  | externalName | headless
  deriving DecidableEq, Repr

/-- What a policy says of a Service. -/
inductive PublicationDecision
  | unspecified | allow | deny
  deriving DecidableEq, Repr

/-- What a policy is asked about. -/
structure ServicePublicationContext where
  mode : ServicePublicationMode
  serviceNamespace : String
  name : String
  labels : Labels
  annotations : Labels

/-- `Options`. A reader of namespace labels that fails gives `none`. -/
structure Options where
  namespaceLabels : Option (String → Option Labels) := none
  sources : List String := []
  namespaces : List String := []
  gatewayTargetNamespaces : List String := []
  domainFilters : List String := []
  defaultTTL : Int := 0
  zone : String := ""
  ownerID : String := ""
  publishExternalNameServices : Bool := false
  publishHeadlessServices : Bool := false
  servicePublicationPolicy : Option (ServicePublicationContext → PublicationDecision) := none
  maxEndpointsPerResource : Int := 0
  maxEndpointsPerDiscovery : Int := 0

/-- No list enables all sources. -/
def Options.sourceEnabled (o : Options) (name : String) : Bool :=
  o.sources.isEmpty || o.sources.any fun source => equalFold source name

/-- No list allows all namespaces. -/
def Options.namespaceAllowed (o : Options) (objectNamespace : String) : Bool :=
  o.namespaces.isEmpty || o.namespaces.contains objectNamespace

/-- Other namespaces have to be listed. -/
def Options.gatewayTargetNamespaceAllowed (o : Options) (objectNamespace : String) : Bool :=
  o.gatewayTargetNamespaces.contains objectNamespace

/-- Without filters every name is allowed. -/
def Options.domainAllowed (o : Options) (hostname : String) : Bool :=
  o.domainFilters.isEmpty || o.domainFilters.any fun filter =>
    normalizeDNSName hostname == normalizeDNSName filter ||
      hasSuffix (normalizeDNSName hostname) ("." ++ normalizeDNSName filter)

/-- The name is the zone or below it. -/
def Options.hostInZone (o : Options) (hostname : String) : Bool :=
  let zone := normalizeDNSName o.zone
  if zone = "" then false
  else normalizeDNSName hostname == zone || hasSuffix (normalizeDNSName hostname) ("." ++ zone)

/-- The labels and annotations that policies read. -/
structure ResourceMetadata where
  labels : Labels := []
  annotations : Labels := []
  deriving DecidableEq, Repr

/-- Events are warnings or for information. -/
inductive EventLevel
  | warning | info
  deriving DecidableEq, Repr

/-- What is reported about a resource. -/
structure Event where
  level : EventLevel
  resource : SourceRef
  message : String
  hostname : String
  deriving DecidableEq, Repr

/-- `Result`: the endpoints, the events and what could not be listed. -/
structure Result where
  endpoints : List Endpoint := []
  events : List Event := []
  incompleteSources : Finset String := ∅
  metadata : GoMap ResourceMetadata := ∅

/-- `Result.addEvent`. -/
def Result.add (r : Result) (level : EventLevel) (ref : SourceRef) (hostname message : String) : Result :=
  if maxDiscoveryEvents ≤ r.events.length then r
  else { r with events := r.events ++ [⟨level, ref, message, normalizeDNSName hostname⟩] }

/-- A warning. -/
def Result.addEvent (r : Result) (ref : SourceRef) (hostname message : String) : Result :=
  r.add .warning ref hostname message

/-- An event for information. -/
def Result.addInfoEvent (r : Result) (ref : SourceRef) (hostname message : String) : Result :=
  r.add .info ref hostname message

/-- The source could not be read as a whole. -/
def Result.markIncomplete (r : Result) (source : String) : Result :=
  let source := toLower (trimSpace source)
  if source = "" then r else { r with incompleteSources := insert source r.incompleteSources }

/-- No part of the source is missing. -/
def Result.sourceComplete (r : Result) (source : String) : Bool :=
  !decide (toLower (trimSpace source) ∈ r.incompleteSources)

/-- `SourceRef.String`. -/
def refText (ref : SourceRef) : String :=
  if ref.sourceNamespace = "" then ref.kind ++ "/" ++ ref.name
  else ref.kind ++ "/" ++ ref.sourceNamespace ++ "/" ++ ref.name

/-- Filed under the reference of the object. -/
def Result.setMetadata (r : Result) (ref : SourceRef) (labels annotations : Labels) : Result :=
  { r with metadata := r.metadata.set (refText ref) ⟨labels, annotations⟩ }

/-- `Result.Merge`. Marks and metadata are copied in an order that does not show. -/
def Result.merge (r other : Result) : Result where
  endpoints := r.endpoints ++ other.endpoints
  events := r.events ++ other.events.take (maxDiscoveryEvents - r.events.length)
  incompleteSources := r.incompleteSources ∪
    (other.incompleteSources.image fun source => toLower (trimSpace source)).erase ""
  metadata := other.metadata.entries.foldl (fun m entry => m.set entry.1 entry.2) r.metadata

/-- Normalized names, sorted, each once. -/
def uniqueSorted (values : List String) : List String :=
  sortStrings ((values.map normalizeDNSName).filter (· ≠ "")).dedup

/-- Internationalized names are converted by `idna`. -/
def normalizeHostname (rt : SourceRuntime) (text : String) : String :=
  let name := normalizeDNSName text
  if name = "" then ""
  else
    let wildcard := if hasPrefix name "*." then "*." else ""
    match rt.toASCII (trimPrefix name "*.") with
    | none => name
    | some ascii => if ascii = "" then name else wildcard ++ toLower ascii

/-- `validHostname`. The pattern admits ASCII only, so characters are bytes. -/
def validHostname (name : String) : Bool :=
  if name.toList.length = 0 ∨ 253 < name.toList.length then false
  else
    let name := trimPrefix name "*."
    if name = "" ∨ isDNS1123Subdomain name = false then false
    else (labels name.toList).all fun label => decide (label.length ≤ 63)

/-- A target must not be an address or a wildcard. -/
def validTargetHostname (rt : SourceRuntime) (text : String) : Option String :=
  let name := normalizeHostname rt text
  if name = "" ∨ hasPrefix name "*" ∨ (parseIP name).isSome ∨ validHostname name = false then none else some name

/-- Both annotations count, each with a list. -/
def hostnamesFromAnnotations (rt : SourceRuntime) (annotations : Labels) : List String :=
  uniqueSorted ([annotationHostname, annotationHostnameAlpha].flatMap fun key =>
    ((split ',' (value annotations key)).map (normalizeHostname rt)).filter (· ≠ ""))

/-- Seconds, or a duration. -/
def parseTTLValue (rt : SourceRuntime) (text : String) : Option Int :=
  match parseInt64 text with
  | some ttl => some ttl
  | none =>
    match rt.parseDuration text with
    | none => none
    | some duration => if duration.tmod 1000000000 ≠ 0 then none else some (duration.tdiv 1000000000)

/-- The message of an annotation that holds no TTL. -/
def invalidTTL (rt : SourceRuntime) (key text : String) : String :=
  "invalid TTL annotation " ++ key ++ "=" ++ rt.quote text ++
    " (must be integer seconds or a whole-second duration such as \"5m\", within 1.." ++
    toString maxTTL ++ " seconds)"

/-- `TTLFromAnnotations`: the first annotation that is not blank decides. -/
def ttlFromAnnotations (rt : SourceRuntime) (annotations : Labels) (defaultTTL : Int) : Except String Int :=
  match [annotationTTL, annotationTTLAlpha].find? fun key => trimSpace (value annotations key) ≠ "" with
  | none => .ok defaultTTL
  | some key =>
    let text := trimSpace (value annotations key)
    match parseTTLValue rt text with
    | none => .error (invalidTTL rt key text)
    | some ttl => if ttl ≤ 0 ∨ maxTTL < ttl then .error (invalidTTL rt key text) else .ok ttl

/-- The TTL of a resource: an annotation that cannot be read is reported and ignored. -/
def Result.ttlOrDefault (rt : SourceRuntime) (r : Result) (ref : SourceRef) (annotations : Labels)
    (defaultTTL : Int) :
    Result × Int :=
  match ttlFromAnnotations rt annotations defaultTTL with
  | .ok ttl => (r, ttl)
  | .error message => (r.addEvent ref "" message, defaultTTL)

/-- The last checks of a name before it is published. -/
def appendEndpointForHost (r : Result) (opts : Options) (ref : SourceRef) (host : String) (targets : List String)
    (ttl : Int) : Result :=
  let host := normalizeDNSName host
  if host = "" then r
  else if !opts.domainAllowed host then r
  else if host = "*" ∨ hasPrefix host "*." then
    r.addEvent ref host "wildcard hostnames are not supported by the FortiGate dns-database; skipping"
  else if !opts.hostInZone host then
    r.addEvent ref host "hostname is outside the configured FortiGate zone; skipping"
  else if targets.isEmpty then r.addEvent ref host "resource has a hostname but no publishable target"
  else { r with endpoints := r.endpoints ++ buildEndpoints host targets ttl opts.zone opts.ownerID ref }

/-- The body of the loop of `publishableHosts`: the normalized host or the event for its refusal. -/
def publishableHost (rt : SourceRuntime) (r : Result) (opts : Options) (ref : SourceRef) (host : String) :
    Result × Option String :=
  let host := normalizeHostname rt host
  if host = "" ∨ opts.domainAllowed host = false then (r, none)
  else if !validHostname host then (r.addEvent ref host "hostname is not a valid DNS name; skipping", none)
  else if host = "*" ∨ hasPrefix host "*." then
    (r.addEvent ref host "wildcard hostnames are not supported by the FortiGate dns-database; skipping", none)
  else if !opts.hostInZone host then
    (r.addEvent ref host "hostname is outside the configured FortiGate zone; skipping", none)
  else if host = normalizeDNSName opts.zone then
    (r.addEvent ref host "hostname equals the zone apex, which cannot be published; skipping", none)
  else (r, some host)

/-- The loop of `publishableHosts`. -/
def filterHosts (rt : SourceRuntime) (opts : Options) (ref : SourceRef) (r : Result) :
    List String → Result × List String
  | [] => (r, [])
  | host :: rest =>
    let (r, published) := publishableHost rt r opts ref host
    let (r, others) := filterHosts rt opts ref r rest
    (r, published.toList ++ others)

/-- The names that pass the filters; the others are reported. -/
def publishableHosts (rt : SourceRuntime) (r : Result) (opts : Options) (ref : SourceRef) (hosts : List String) :
    Result × List String :=
  let (r, filtered) := filterHosts rt opts ref r hosts
  (r, uniqueSorted filtered)

/-- How often `ctx.Err()` still finds the context alive; `none` for one that is never canceled. -/
abbrev Context := Option Nat

/-- `ctx.Err()`. -/
def Context.err : Context → Bool × Context
  | none => (false, none)
  | some 0 => (true, some 0)
  | some (n + 1) => (false, some n)

/-- Why a discovery pass ends early. -/
inductive DiscoveryError
  | canceled
  | unavailable
  | notSynced
  | failed
  deriving DecidableEq, Repr

/-- What a discovery and a resource may still publish. -/
structure EndpointBudget where
  remaining : Int
  perResource : Int
  deriving DecidableEq, Repr

/-- Limits that are not positive stand for the defaults. -/
def newEndpointBudget (opts : Options) : EndpointBudget where
  perResource := if opts.maxEndpointsPerResource ≤ 0 then defaultMaxEndpointsPerResource else
    opts.maxEndpointsPerResource
  remaining :=
    if opts.maxEndpointsPerDiscovery ≤ 0 then defaultMaxEndpointsPerDiscovery else opts.maxEndpointsPerDiscovery

/-- What a part of a pass leaves behind. -/
structure Discovered where
  result : Result := {}
  budget : EndpointBudget
  ctx : Context
  err : Option DiscoveryError := none

/-- The loop of `appendSource` over the publishable hosts. -/
def appendHosts (opts : Options) (source : String) (ref : SourceRef) (targets : List String) (ttl : Int)
    (budget : EndpointBudget) : List String → Result → Context → Discovered
  | [], r, ctx => { result := r, budget := budget, ctx := ctx }
  | host :: rest, r, ctx =>
    let (canceled, ctx) := ctx.err
    if canceled then { result := r.markIncomplete source, budget := budget, ctx := ctx, err := some .canceled }
    else appendHosts opts source ref targets ttl budget rest
      (appendEndpointForHost r opts ref host targets ttl) ctx

/-- A resource that exceeds the budget publishes nothing. -/
def EndpointBudget.appendSource (rt : SourceRuntime) (b : EndpointBudget) (ctx : Context) (r : Result)
    (opts : Options) (source : String) (ref : SourceRef) (hosts targets : List String) (ttl : Int) : Discovered :=
  let (canceled, ctx) := ctx.err
  if canceled then { result := r.markIncomplete source, budget := b, ctx := ctx, err := some .canceled }
  else
    let uniqueTargets := uniqueSorted targets
    let (r, hosts) := publishableHosts rt r opts ref hosts
    let h : Int := hosts.length
    let t : Int := uniqueTargets.length
    if 0 < t ∧ (b.perResource.tdiv t < h ∨ b.remaining.tdiv t < h) then
      let r := r.markIncomplete source
      { result := r.addEvent ref "" ("source endpoint expansion (" ++ toString h ++ " hostnames x " ++
          toString t ++ " targets) exceeds discovery budget; rejecting the entire resource")
        budget := b, ctx := ctx }
    else appendHosts opts source ref uniqueTargets ttl { b with remaining := b.remaining - h * t } hosts r ctx

/-- The deferred `SetMetadata`: a resource that publishes is described. -/
def Discovered.describe (d : Discovered) (ref : SourceRef) (labels annotations : Labels) : Discovered :=
  if d.result.endpoints.isEmpty then d else { d with result := d.result.setMetadata ref labels annotations }

end FortigateDns.Source
