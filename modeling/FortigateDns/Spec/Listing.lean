import FortigateDns.Go.Float
import FortigateDns.Go.Json
import FortigateDns.Spec.Client

/-!
# Listing the device

`internal/fortigate/client.go`: `ListRecords` reads the rows of the zone page by page and
accepts them only as a whole, and `toEndpoint` decodes a row. The answers to the page requests
are an input, by the number of the page. The loop has no bound of its own, so it gets fuel; a
listing without an outcome has run out of it.
-/

namespace FortigateDns

open Go

/-- What `encoding/json` leaves in a field of type `any`: a text, a number, or anything else. -/
inductive IDValue
  | text (value : String)
  | number (value : Float64)
  | other
  deriving DecidableEq, Repr

/-- The JSON number `mantissa * 10 ^ exponent`; one beyond the range of `float64` fails the whole response. -/
def IDValue.ofNumber (mantissa exponent : Int) : Option IDValue :=
  (Float64.ofDecimal mantissa exponent).map .number

/-- `fortiRecord` as it is read. -/
structure ListedRecord extends FortiRecord where
  id : IDValue := .other
  mkey : IDValue := .other
  deriving DecidableEq, Repr

/-- `scalarRecordID`, on the values that a response can hold. A number comes from `float64` by way of
`int64`, so above `2 ^ 53` it need not be the number on the wire. -/
def scalarRecordID : IDValue → String
  | .text value => trimSpace value
  | .number value =>
    let integer := value.toInt64
    if value ≠ .ofInt integer then "" else toString integer
  | .other => ""

/-- `mkey`, or else `id`. -/
def recordID (record : ListedRecord) : String :=
  let id := scalarRecordID record.mkey
  if id ≠ "" then id else scalarRecordID record.id

/-- White space is empty. -/
def appendIfNotEmpty (values : List String) (value : String) : List String :=
  if trimSpace value = "" then values else values ++ [value]

/-- The name below the zone. -/
def qualifiedHostname (hostname zone : String) : String :=
  let hostname := normalizeDNSName hostname
  if hostname = "" then "" else hostname ++ "." ++ normalizeDNSName zone

/-- A trailing dot makes the name absolute. -/
def qualifiedCanonicalName (name zone : String) : String :=
  let name := trimSpace name
  if name = "" then ""
  else if hasSuffix name "." then normalizeDNSName name
  else qualifiedHostname name zone

/-- The targets of a row, by its type. -/
def ListedRecord.targets (r : ListedRecord) (recordType zone : String) : List String :=
  if recordType = recordA then appendIfNotEmpty [] r.ip
  else if recordType = recordAAAA then appendIfNotEmpty [] r.ipv6
  else if recordType = recordCNAME then appendIfNotEmpty [] (qualifiedCanonicalName r.canonicalName zone)
  else appendIfNotEmpty (appendIfNotEmpty (appendIfNotEmpty [] r.ip) r.ipv6) r.canonicalName

/-- A row as an endpoint. -/
def ListedRecord.toEndpoint (r : ListedRecord) (zone : String) : Endpoint where
  dnsName := qualifiedHostname r.hostname zone
  recordType := toUpper r.type
  targets := r.targets (toUpper r.type) zone
  ttl := r.ttl
  zone := zone
  providerID := recordID r
  disabled := equalFold r.status "disable" || equalFold r.status "disabled"

/-- One page of a listing. -/
structure FortiResponse where
  results : List ListedRecord := []
  size : Option Int := none
  matchedCount : Option Int := none
  revision : Option String := none
  deriving DecidableEq, Repr

/-- The errors of `ListRecords`. -/
inductive ListError
  | request (err : ClientError)
  | missingSize
  | negativeSize (size : Int)
  | sizeChanged (total size : Int)
  | matchedCount (matchedCount returned : Int)
  | missingRevision
  | revisionChanged (revision responseRevision : String)
  | missingProviderID
  | nonNumericProviderID (providerID : String)
  | repeatedProviderID (providerID : String)
  | inconsistent (collected : Nat) (total : Int)
  | notAdvanced (start collected : Nat) (total : Int)
  deriving DecidableEq, Repr

/-- The variables of the loop of `ListRecords`. -/
structure ListState where
  records : List ListedRecord := []
  seenProviderIDs : List String := []
  start : Nat := 0
  total : Int := -1
  revision : String := ""
  pages : Nat := 0

/-- The ID under which a row is counted. -/
def ListedRecord.providerID (r : ListedRecord) : String := trimSpace (recordID r)

/-- The loop over the rows of a page, on the IDs seen so far. -/
def collectRows : List String → List ListedRecord → Except ListError (List String)
  | seen, [] => .ok seen
  | seen, r :: rest =>
    if r.providerID = "" then .error .missingProviderID
    else if !providerIDPattern r.providerID then .error (.nonNumericProviderID r.providerID)
    else if r.providerID ∈ seen then .error (.repeatedProviderID r.providerID)
    else collectRows (seen ++ [r.providerID]) rest

/-- `responseRevision`. -/
def FortiResponse.pageRevision (response : FortiResponse) : String := trimSpace (response.revision.getD "")

/-- `revision` after a page: that of the first page. -/
def ListState.nextRevision (st : ListState) (response : FortiResponse) : String :=
  if st.pages = 0 then response.pageRevision else st.revision

/-- The checks on one page, up to the end of the loop over its rows. -/
def ListState.readPage (st : ListState) (response : FortiResponse) : Except ListError ListState :=
  match response.size with
  | none => .error .missingSize
  | some size =>
    if size < 0 then .error (.negativeSize size)
    else if st.total ≠ -1 ∧ size ≠ st.total then .error (.sizeChanged st.total size)
    else if response.matchedCount.any (fun n => n ≠ (response.results.length : Int)) then
      .error (.matchedCount (response.matchedCount.getD 0) response.results.length)
    -- a single page may omit the revision
    else if st.pages ≠ 0 ∧ (response.pageRevision = "" ∨ st.revision = "") then .error .missingRevision
    else if st.pages ≠ 0 ∧ response.pageRevision ≠ st.revision then
      .error (.revisionChanged st.revision response.pageRevision)
    else
      match collectRows st.seenProviderIDs response.results with
      | .error err => .error err
      | .ok seen => .ok {
          records := st.records ++ response.results
          seenProviderIDs := seen
          start := st.start
          total := size
          revision := st.nextRevision response
          pages := st.pages + 1 }

/-- One turn of the loop: the next state, and whether the listing is complete. -/
def ListState.turn (st : ListState) (answer : Except ClientError FortiResponse) : Except ListError
    (ListState × Bool) :=
  match answer with
  | .error err => .error (.request err)
  | .ok response =>
    match st.readPage response with
    | .error err => .error err
    | .ok st =>
      if st.total < st.records.length then .error (.inconsistent st.records.length st.total)
      else if st.records.length = st.total then .ok (st, true)
      else if response.results = [] then .error (.notAdvanced st.start st.records.length st.total)
      else .ok ({ st with start := st.start + response.results.length }, false)

/-- What a listing does: the `start` of each page request, and how it ends. -/
structure Listing (α : Type) where
  requests : List Nat
  outcome : Option (Except ListError α)

/-- The loop of `ListRecords`. -/
def listLoop (answer : Nat → Except ClientError FortiResponse) : Nat → ListState → Listing (List ListedRecord)
  | 0, _ => ⟨[], none⟩
  | fuel + 1, st =>
    match st.turn (answer st.pages) with
    | .error err => ⟨[st.start], some (.error err)⟩
    | .ok (next, true) => ⟨[st.start], some (.ok next.records)⟩
    | .ok (next, false) =>
      let rest := listLoop answer fuel next
      ⟨st.start :: rest.requests, rest.outcome⟩

/-- The rows as endpoints; rows without a name or a type are left out. -/
def decodeRecords (zone : String) (records : List ListedRecord) : List Endpoint :=
  ((records.map fun r => r.toEndpoint zone).filter fun e => e.dnsName ≠ "" && e.recordType ≠ "").map
    Endpoint.normalize

/-- Page by page, until the listing is complete. -/
def listRecords (answer : Nat → Except ClientError FortiResponse) (zone : String) (fuel : Nat) :
    Listing (List Endpoint) :=
  let listing := listLoop answer fuel {}
  ⟨listing.requests, listing.outcome.map fun result => result.map (decodeRecords zone)⟩

/-- The JSON of one row of a snapshot, after `Normalize`. An empty copy of the targets is nil. -/
def Endpoint.snapshotJSON (e : Endpoint) : List Char :=
  let e := e.normalize
  Json.object [("providerID", Json.string e.providerID), ("zone", Json.string e.zone),
    ("dnsName", Json.string e.dnsName), ("recordType", Json.string e.recordType),
    ("targets", if e.targets = [] then "null".toList else Json.array (e.targets.map Json.string)),
    ("ttl", Json.int e.ttl), ("disabled", Json.bool e.disabled)]

/-- `data` of `recordsRevision`: the rows are sorted by their bytes, which UTF-8 orders like their
characters. -/
def snapshotData (records : List Endpoint) : List Char :=
  Json.array ((records.map Endpoint.snapshotJSON).insertionSort (· ≤ ·))

/-- `recordsRevision`; no field of a row can fail to be encoded. -/
def recordsRevision (records : List Endpoint) : String :=
  "sha256:" ++ String.ofList (sha256Hex (snapshotData records))

end FortigateDns
