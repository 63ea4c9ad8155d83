import FortigateDns.Go.Net
import Mathlib.Data.List.Sort

/-!
# DNS endpoints

`internal/dns/endpoint.go`: an endpoint is one DNS record as the controller sees it, with
the identity keys the planner groups by. `key` identifies one FortiGate row's content
(zone, name, type, target), `logicalKey` leaves out the target and `mutationGroupKey`
also the type. All three normalize first. A **well-formed** endpoint is a fixed point of
`normalize` with a name, a type, one target and no `|` in what the keys join.
-/

namespace FortigateDns

open Go

/-- `RecordA`, `RecordAAAA` and `RecordCNAME`. -/
def recordA : String := "A"
def recordAAAA : String := "AAAA"
def recordCNAME : String := "CNAME"

/-- The Kubernetes object an endpoint was discovered from. -/
structure SourceRef where
  apiVersion : String := ""
  kind : String := ""
  sourceNamespace : String := ""
  name : String := ""
  uid : String := ""
  deriving DecidableEq, Repr, Inhabited

/-- `Endpoint`: a record, desired or listed. -/
structure Endpoint where
  dnsName : String := ""
  recordType : String := ""
  targets : List String := []
  ttl : Int := 0
  zone : String := ""
  ownerID : String := ""
  source : SourceRef := {}
  providerID : String := ""
  disabled : Bool := false
  deriving DecidableEq, Repr, Inhabited

/-- `NormalizeDNSName`: trims spaces, lower-cases and strips one trailing dot. -/
def normalizeDNSName (name : String) : String := trimSuffix (toLower (trimSpace name)) "."

/-- `NormalizeTarget`: an IP address in its canonical text form, anything else as a name. -/
def normalizeTarget (target : String) : String :=
  match parseIP (trimSpace target) with
  | some ip => ip.toText
  | none => normalizeDNSName (trimSpace target)

/-- `sort.Strings`. -/
def sortStrings (l : List String) : List String := l.insertionSort (· ≤ ·)

/-- `Normalize`: upper and lower case, white space and dots. -/
def Endpoint.normalize (e : Endpoint) : Endpoint :=
  { e with
    dnsName := normalizeDNSName e.dnsName
    recordType := toUpper (trimSpace e.recordType)
    zone := normalizeDNSName e.zone
    targets := if 0 < e.targets.length then sortStrings (e.targets.map normalizeTarget) else e.targets }

/-- Zone, name and type, and the target if there is one. -/
def Endpoint.key (e : Endpoint) : String :=
  let e := e.normalize
  let parts := [e.zone, e.dnsName, e.recordType]
  join "|" (match e.targets with
    | t :: _ => parts ++ [t]
    | [] => parts)

/-- Zone, name and type. -/
def Endpoint.logicalKey (e : Endpoint) : String :=
  let e := e.normalize
  join "|" [e.zone, e.dnsName, e.recordType]

/-- Zone and name. -/
def Endpoint.mutationGroupKey (e : Endpoint) : String :=
  let e := e.normalize
  join "|" [e.zone, e.dnsName]

/-- `Endpoint.EqualRecord`: the fields a FortiGate row stores agree. -/
def Endpoint.equalRecord (e other : Endpoint) : Bool :=
  let e := e.normalize
  let other := other.normalize
  e.dnsName == other.dnsName && e.recordType == other.recordType && e.ttl == other.ttl &&
    e.disabled == other.disabled && e.targets == other.targets

/-- `RecordKey`. -/
def dnsRecordKey (zone name recordType : String) : String :=
  join "|" [normalizeDNSName zone, normalizeDNSName name, toUpper (trimSpace recordType)]

/-- What is no address is a name. -/
def recordTypeForTarget (target : String) : String :=
  match parseIP (trimSpace target) with
  | none => recordCNAME
  | some ip => if ip.to4.isSome then recordA else recordAAAA

/-- The loop of `BuildEndpoints` over the targets, with the keys seen so far. -/
def buildEach (hostname : String) (ttl : Int) (zone ownerID : String) (source : SourceRef) :
    List String → List String → List Endpoint
  | _, [] => []
  | seen, target :: rest =>
    let target := normalizeTarget target
    if target = "" then buildEach hostname ttl zone ownerID source seen rest
    else
      let recordType := recordTypeForTarget target
      let key := dnsRecordKey zone hostname recordType ++ "|" ++ target
      if key ∈ seen then buildEach hostname ttl zone ownerID source seen rest
      else
        Endpoint.normalize
          { dnsName := normalizeDNSName hostname, recordType := recordType, targets := [target], ttl := ttl
            zone := zone, ownerID := ownerID, source := source } ::
          buildEach hostname ttl zone ownerID source (key :: seen) rest

/-- `BuildEndpoints`. Endpoints with the same key are equal here, so that any sort gives this list. -/
def buildEndpoints (hostname : String) (targets : List String) (ttl : Int) (zone ownerID : String)
    (source : SourceRef) :
    List Endpoint :=
  (buildEach hostname ttl zone ownerID source [] targets).insertionSort fun a b => a.key ≤ b.key

/-- `|` does not occur in a string. -/
def NoBar (s : String) : Prop := '|' ∉ s.toList

instance (s : String) : Decidable (NoBar s) := inferInstanceAs (Decidable ('|' ∉ s.toList))

/-- A well-formed endpoint. Of the fields that must not contain `|` only those that enter a
key are listed. -/
structure Endpoint.WellFormed (e : Endpoint) : Prop where
  fixed : e.normalize = e
  name : e.dnsName ≠ ""
  type : e.recordType ≠ ""
  oneTarget : e.targets.length = 1
  barZone : NoBar e.zone
  barName : NoBar e.dnsName
  barType : NoBar e.recordType
  barTarget : ∀ t ∈ e.targets, NoBar t

instance (e : Endpoint) : Decidable e.WellFormed :=
  decidable_of_iff (e.normalize = e ∧ e.dnsName ≠ "" ∧ e.recordType ≠ "" ∧ e.targets.length = 1 ∧
      NoBar e.zone ∧ NoBar e.dnsName ∧ NoBar e.recordType ∧ ∀ t ∈ e.targets, NoBar t)
    ⟨fun ⟨a, b, c, d, e, f, g, h⟩ => ⟨a, b, c, d, e, f, g, h⟩,
     fun ⟨a, b, c, d, e, f, g, h⟩ => ⟨a, b, c, d, e, f, g, h⟩⟩

end FortigateDns
