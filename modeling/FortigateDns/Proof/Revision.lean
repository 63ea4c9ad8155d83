import FortigateDns.Go.JsonFrames
import FortigateDns.Spec.Listing

/-!
# The revision identifies the content of a snapshot

* `framing_json`: **the JSON of one row is told from whatever follows it.**
-/

namespace FortigateDns

open Go Go.Json List

/-- What a row contributes to the revision: everything but owner and source. -/
structure SnapshotRow where
  providerID : String
  zone : String
  dnsName : String
  recordType : String
  targets : List String
  ttl : Int
  disabled : Bool
  deriving DecidableEq, Repr

/-- The row of an endpoint, after `Normalize`. -/
def Endpoint.snapshotRow (e : Endpoint) : SnapshotRow where
  providerID := e.normalize.providerID
  zone := e.normalize.zone
  dnsName := e.normalize.dnsName
  recordType := e.normalize.recordType
  targets := e.normalize.targets
  ttl := e.normalize.ttl
  disabled := e.normalize.disabled

/-- The JSON of a row, member by member. -/
def SnapshotRow.json (r : SnapshotRow) : List Char :=
  '\x7b' :: (member "providerID" (string r.providerID) ++ ',' :: (member "zone" (string r.zone) ++
    ',' :: (member "dnsName" (string r.dnsName) ++ ',' :: (member "recordType" (string r.recordType) ++
    ',' :: (member "targets" (strings r.targets) ++ ',' :: (member "ttl" (int r.ttl) ++
    ',' :: (member "disabled" (bool r.disabled) ++ ['\x7d'])))))))

theorem snapshotJSON_eq (e : Endpoint) : e.snapshotJSON = e.snapshotRow.json := by
  unfold Endpoint.snapshotJSON SnapshotRow.json Endpoint.snapshotRow
  simp only [object, fields, member, strings, append_assoc, cons_append]

/-- **A row is told from whatever follows it**: each of its members is, up to the next comma. -/
theorem framing_json : Framing (fun _ => True) SnapshotRow.json := by
  rintro ⟨p, z, n, t, targets, ttl, d⟩ ⟨p', z', n', t', targets', ttl', d'⟩ rest rest' _ _ heq
  have hcomma : ','.isDigit = false := by decide
  unfold SnapshotRow.json at heq
  simp only [cons_append, append_assoc] at heq
  obtain ⟨hproviderID, h⟩ := delimited_string.member hcomma (List.cons.inj heq).2
  obtain ⟨hzone, h⟩ := delimited_string.member hcomma h
  obtain ⟨hname, h⟩ := delimited_string.member hcomma h
  obtain ⟨htype, h⟩ := delimited_string.member hcomma h
  obtain ⟨htargets, h⟩ := delimited_strings.member hcomma h
  obtain ⟨httl, h⟩ := delimited_int.member hcomma h
  obtain ⟨hdisabled, hrest⟩ := delimited_bool.member (by decide) h
  subst hproviderID hzone hname htype htargets httl hdisabled
  exact ⟨rfl, hrest⟩

theorem json_injective : Function.Injective SnapshotRow.json := by
  intro r r' h
  refine (framing_json r r' [] [] trivial trivial ?_).1
  rw [h]

/-- The rows, sorted by their JSON. -/
def sortedRows (records : List Endpoint) : List SnapshotRow :=
  (records.map Endpoint.snapshotRow).insertionSort fun r r' => r.json ≤ r'.json

theorem snapshotData_eq (records : List Endpoint) :
    snapshotData records = array ((sortedRows records).map SnapshotRow.json) := by
  have hjson : records.map Endpoint.snapshotJSON = (records.map Endpoint.snapshotRow).map SnapshotRow.json := by
    rw [map_map]
    exact map_congr_left fun e _ => snapshotJSON_eq e
  unfold snapshotData sortedRows
  rw [hjson, map_insertionSort (fun r r' => r.json ≤ r'.json) (· ≤ ·) SnapshotRow.json _ fun _ _ _ _ => Iff.rfl]

/-- Sorting identifies exactly the permutations. -/
theorem sortedRows_eq_iff (l l' : List Endpoint) :
    sortedRows l = sortedRows l' ↔ (l.map Endpoint.snapshotRow).Perm (l'.map Endpoint.snapshotRow) := by
  have hperm : ∀ l : List Endpoint, (sortedRows l).Perm (l.map Endpoint.snapshotRow) := fun l =>
    perm_insertionSort _ _
  constructor
  · intro h
    have hleft := hperm l
    rw [h] at hleft
    exact hleft.symm.trans (hperm l')
  · intro h
    refine eq_of_perm_of_inj (((hperm l).trans h).trans (hperm l').symm)
      (pairwise_insertionSort_key SnapshotRow.json _)
      (pairwise_insertionSort_key SnapshotRow.json _) ?_
    exact fun r _ r' _ hjson => json_injective hjson

/-- **The hashed text says which rows there are, and how often each.** -/
theorem snapshotData_eq_iff (l l' : List Endpoint) :
    snapshotData l = snapshotData l' ↔ (l.map Endpoint.snapshotRow).Perm (l'.map Endpoint.snapshotRow) := by
  rw [← sortedRows_eq_iff, snapshotData_eq, snapshotData_eq]
  refine ⟨array_map_inj framing_json (fun r => ?_) (fun r => ?_), fun h => by rw [h]⟩
  · unfold SnapshotRow.json
    rw [head?_cons]
    decide
  · exact cons_ne_nil _ _

theorem recordsRevision_congr {l l' : List Endpoint} (h : snapshotData l = snapshotData l') :
    recordsRevision l = recordsRevision l' := by
  unfold recordsRevision
  rw [h]

/-- Equal revisions have equal digests. -/
theorem digest_of_revision {l l' : List Endpoint} (h : recordsRevision l = recordsRevision l') :
    sha256Hex (snapshotData l) = sha256Hex (snapshotData l') := by
  unfold recordsRevision at h
  exact String.ofList_injective (String.append_right_inj _ |>.1 h)

/-- **The revision identifies the content of the snapshot.** With no collision between the digests
of the two texts, two lists have the same revision if and only if they have the same rows after
`Normalize`, each as often; and the order of the rows, owners and sources do not matter. -/
theorem recordsRevision_identifies (l l' : List Endpoint)
    (hfree : sha256Hex (snapshotData l) = sha256Hex (snapshotData l') → snapshotData l = snapshotData l') :
    (recordsRevision l = recordsRevision l' ↔
      (l.map Endpoint.snapshotRow).Perm (l'.map Endpoint.snapshotRow)) ∧
    (l.Perm l' → recordsRevision l = recordsRevision l') ∧
    ∀ (owner : Endpoint → String) (source : Endpoint → SourceRef),
      recordsRevision (l.map fun e => { e with ownerID := owner e, source := source e }) = recordsRevision l := by
  refine ⟨⟨fun h => (snapshotData_eq_iff l l').1 (hfree (digest_of_revision h)), fun h => ?_⟩, fun h => ?_,
    fun owner source => ?_⟩
  · exact recordsRevision_congr ((snapshotData_eq_iff l l').2 h)
  · exact recordsRevision_congr ((snapshotData_eq_iff l l').2 (h.map _))
  · refine recordsRevision_congr ((snapshotData_eq_iff _ l).2 ?_)
    rw [map_map]
    exact .of_eq (map_congr_left fun e _ => rfl)

/-- Two rows in two orders, written in two ways. -/
theorem recordsRevision_identifies_pair :
    let l := [{ dnsName := "A.example.", recordType := "a", targets := ["10.0.0.1"], ownerID := "x" },
      { dnsName := "b.example", recordType := "CNAME" }];
    let l' := [{ dnsName := "b.example", recordType := "cname", ownerID := "y" },
      { dnsName := "a.example", recordType := "A", targets := [" 10.0.0.1"] }];
    recordsRevision l = recordsRevision l' ∧ (l.map Endpoint.snapshotRow).Perm (l'.map Endpoint.snapshotRow) := by
  intro l l'
  have hrows : (l.map Endpoint.snapshotRow).Perm (l'.map Endpoint.snapshotRow) := by decide +kernel
  have hdata : snapshotData l = snapshotData l' := (snapshotData_eq_iff l l').2 hrows
  have hidentifies := recordsRevision_identifies l l' fun _ => hdata
  exact ⟨hidentifies.1.2 hrows, hrows⟩

end FortigateDns
