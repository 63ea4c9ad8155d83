import FortigateDns.Proof.CleanupScope
import FortigateDns.Proof.PlanOrder
import FortigateDns.Proof.Restricted

/-!
# The document of a plan is valid

The identifier of an operation is the digest of its sanitized content, which leaves out owners,
sources and the text of the reason. Two operations of a cycle still differ in it: those that carry
a desired endpoint differ in that endpoint's key, and the other ones in the provider ID of their
row. So, unless two contents collide, the document of the cycle is valid and has an identifier.
-/

namespace FortigateDns

open Go GoMap List

variable {rt : Runtime} {desired current : List Endpoint} {ownerID : String} {cleanup : CleanupPolicy}
variable {allowed : Endpoint → Bool} {op op' : Operation} {e f : Endpoint}

theorem sanitizeEndpoint_wf (h : e.WellFormed) :
    sanitizeEndpoint e = some { zone := e.zone, dnsName := e.dnsName, recordType := e.recordType
                                targets := e.targets, ttl := e.ttl, providerID := trimSpace e.providerID
                                disabled := e.disabled } := by
  rw [sanitizeEndpoint_eq h]
  unfold sanitizeRecord
  simp only [h.fixed]

/-- The key of a well-formed endpoint and its provider ID, up to white space. -/
theorem key_of_sanitized (he : e.WellFormed) (hf : f.WellFormed) (h : sanitizeEndpoint e = sanitizeEndpoint f) :
    e.key = f.key ∧ trimSpace e.providerID = trimSpace f.providerID := by
  rw [sanitizeEndpoint_wf he, sanitizeEndpoint_wf hf] at h
  obtain ⟨hzone, hname, htype, htargets, -, hid, -⟩ := SanitizedRecord.mk.inj (Option.some.inj h)
  exact ⟨(key_eq_iff he hf).2 ⟨hzone, hname, htype, htargets⟩, hid⟩

theorem trimSpace_text (t : OperationType) : trimSpace t.text = t.text := by
  cases t <;> decide

theorem content_type (h : sanitizedContent op = sanitizedContent op') : op.type = op'.type := by
  have htype : trimSpace op.type.text = trimSpace op'.type.text := congrArg SanitizedOperation.type h
  rw [trimSpace_text, trimSpace_text] at htype
  exact text_injective htype

theorem content_desired (h : sanitizedContent op = sanitizedContent op') :
    sanitizeEndpoint op.desired = sanitizeEndpoint op'.desired := congrArg SanitizedOperation.desired h

theorem content_current (h : sanitizedContent op = sanitizedContent op') :
    sanitizeEndpoint op.current = sanitizeEndpoint op'.current := congrArg SanitizedOperation.current h

/-- Rows whose provider IDs are trimmed. -/
def TrimmedIDs (rows : List Endpoint) : Prop := ∀ c ∈ rows, trimSpace c.providerID = c.providerID

instance (rows : List Endpoint) : Decidable (TrimmedIDs rows) :=
  inferInstanceAs (Decidable (∀ c ∈ rows, trimSpace c.providerID = c.providerID))

/-- **Two operations of a plan have different contents.** -/
theorem plan_contents_nodup (hd : ∀ e ∈ desired, e.WellFormed) (hc : TableOK current)
    (htrim : TrimmedIDs current) :
    ((buildWithCleanupScope rt desired current ownerID cleanup allowed).map sanitizedContent).Nodup := by
  have hcarry := @plan_carries_nodup rt desired current ownerID cleanup allowed hd hc.wf
  have hrow := @plan_current_nodup rt desired current ownerID cleanup allowed hd hc
  rw [List.Nodup, pairwise_map, pairwise_filter] at hcarry hrow
  rw [List.Nodup, pairwise_map]
  refine (hcarry.and hrow).imp_of_mem fun {a b} ha hb hab heq => ?_
  have htype := content_type heq
  cases ht : a.type.carries with
  | true =>
    -- the desired endpoints have one key, so they are one
    have hta : b.type.carries = true := htype ▸ ht
    have hda := plan_carries hd hc.wf ha ht
    have hdb := plan_carries hd hc.wf hb hta
    have hkey := (key_of_sanitized (wf_of_mem_desiredOf hd hda) (wf_of_mem_desiredOf hd hdb)
      (content_desired heq)).1
    exact hab.1 ht hta (desiredValues_inj hd (mem_desiredOf.1 hda).1 (mem_desiredOf.1 hdb).1 hkey)
  | false =>
    -- the rows have one provider ID, so they are one
    have hma : a.type.mutatesRow = true := by
      cases h : a.type <;> simp [h, OperationType.carries, OperationType.publishes,
        OperationType.mutatesRow] at ht ⊢
    have hmb : b.type.mutatesRow = true := htype ▸ hma
    have hra := (plan_row hd hc.wf ha hma).1
    have hrb := (plan_row hd hc.wf hb hmb).1
    have hid := (key_of_sanitized (hc.wf _ hra) (hc.wf _ hrb) (content_current heq)).2
    rw [htrim _ hra, htrim _ hrb] at hid
    exact hab.2 hma hmb (inj_on_of_nodup_map hc.ids hra hrb hid)

/-- Operations with one content that carry desired endpoints are about one name. -/
theorem content_group {g g' : String} (hd : ∀ e ∈ desired, e.WellFormed)
    (h : sanitizedContent op = sanitizedContent op') (hop : op.desired ∈ desiredOf desired g)
    (hop' : op'.desired ∈ desiredOf desired g') : g = g' := by
  have hwf := wf_of_mem_desiredOf hd hop
  have hwf' := wf_of_mem_desiredOf hd hop'
  have hgroup := group_of_key hwf hwf' (key_of_sanitized hwf hwf' (content_desired h)).1
  rw [(mem_desiredOf.1 hop).2, (mem_desiredOf.1 hop').2] at hgroup
  exact hgroup

/-- No two contents agree after the conflicts of restricted ownership either. -/
theorem enforced_contents_nodup {m : GoMap RestrictedOwnershipConflict} (hm : ConflictsOf desired m)
    (hd : ∀ e ∈ desired, e.WellFormed) (hc : TableOK current) (htrim : TrimmedIDs current) :
    ((enforceRestrictedOwnershipConflicts
      (buildWithCleanupScope rt desired current ownerID cleanup allowed) m).map sanitizedContent).Nodup := by
  have hplan := @plan_contents_nodup rt desired current ownerID cleanup allowed hd hc htrim
  unfold enforceRestrictedOwnershipConflicts
  split
  · exact hplan
  rw [map_append, nodup_append]
  refine ⟨?_, hplan.sublist (filter_sublist.map _), ?_⟩
  · -- one conflict for each name
    rw [List.Nodup, pairwise_map, pairwise_filterMap]
    have hgroups : (m.keys.insertionSort fun a b => a ≤ b).Nodup :=
      (perm_insertionSort _ _).nodup_iff.2 m.keys_nodup
    refine hgroups.imp fun {g g'} hne a ha b hb heq => hne ?_
    obtain ⟨x, hx, rfl⟩ := Option.map_eq_some_iff.1 ha
    obtain ⟨y, hy, rfl⟩ := Option.map_eq_some_iff.1 hb
    exact content_group hd heq (hm g x hx) (hm g' y hy)
  · -- the operations of those names are gone
    intro s hs t ht hst
    obtain ⟨a, ha, rfl⟩ := mem_map.1 hs
    obtain ⟨b, hb, rfl⟩ := mem_map.1 ht
    obtain ⟨g, -, hg⟩ := mem_filterMap.1 ha
    obtain ⟨x, hx, rfl⟩ := Option.map_eq_some_iff.1 hg
    obtain ⟨hbplan, hbkept⟩ := mem_filter.1 hb
    have hcarries : b.type.carries = true := by
      rw [← content_type hst]
      rfl
    have hbdesired := plan_carries hd hc.wf hbplan hcarries
    have hname := (wf_of_mem_desiredOf hd hbdesired).name
    have hgroup := content_group hd hst (hm g x hx) hbdesired
    rw [if_neg hname] at hbkept
    dsimp only at hbkept
    rw [(mem_desiredOf.1 hbdesired).2, ← hgroup, hx] at hbkept
    simp at hbkept

theorem adoptRow_record (ownerID : String) (c : Endpoint) :
    ∃ owner, adoptRow ownerID c = { c with ownerID := owner } :=
  ⟨_, rfl⟩

/-- Rows that differ from the rows of a table in their owners only. -/
theorem relabelled_table (hc : TableOK current) (htrim : TrimmedIDs current) {label : Endpoint → Endpoint}
    (hlabel : ∀ c, ∃ owner, label c = { c with ownerID := owner }) :
    TableOK (current.map label) ∧ TrimmedIDs (current.map label) := by
  have hid : ∀ c, (label c).providerID = c.providerID := by
    intro c
    obtain ⟨owner, h⟩ := hlabel c
    rw [h]
  have hmem : ∀ c ∈ current.map label, ∃ o ∈ current, ∃ owner, c = { o with ownerID := owner } := by
    intro c hcm
    obtain ⟨o, ho, rfl⟩ := mem_map.1 hcm
    exact ⟨o, ho, hlabel o⟩
  refine ⟨⟨fun c hcm => ?_, ?_, fun c hcm => ?_⟩, fun c hcm => ?_⟩
  · obtain ⟨o, ho, owner, rfl⟩ := hmem c hcm
    exact relabel_wf (hc.wf o ho) owner
  · rw [map_map]
    simp only [Function.comp_def, hid]
    exact hc.ids
  · obtain ⟨o, ho, owner, rfl⟩ := hmem c hcm
    exact hc.nonBlank o ho
  · obtain ⟨o, ho, owner, rfl⟩ := hmem c hcm
    exact htrim o ho

/-- **Whatever the mode of ownership**, the rows stay a table with trimmed IDs and the conflicts are
about desired endpoints. -/
theorem ownershipStep_ok (rt : Runtime) (cfg : Config) (hd : ∀ e ∈ desired, e.WellFormed) (hc : TableOK current)
    (htrim : TrimmedIDs current) :
    TableOK (ownershipStep rt cfg current desired).1 ∧ TrimmedIDs (ownershipStep rt cfg current desired).1 ∧
      ConflictsOf desired (ownershipStep rt cfg current desired).2 := by
  have hnone : ConflictsOf desired ∅ := by
    intro g conflict hlook
    rw [AList.lookup_empty] at hlook
    simp at hlook
  unfold ownershipStep
  split
  · unfold prepareExclusiveOwnership
    dsimp only
    split
    · obtain ⟨htable, hids⟩ := relabelled_table hc htrim (adoptRow_record cfg.ownerID)
      exact ⟨htable, hids, hnone⟩
    · obtain ⟨htable, hids⟩ := relabelled_table hc htrim (adoptExactRow_record cfg.ownerID (indexDesired desired))
      exact ⟨htable, hids, restrictedConflicts_of rt hd hc.wf⟩
  · exact ⟨hc, htrim, hnone⟩

/-- Operations with distinct IDs that are digests, and with types of the planner, are valid. -/
theorem validateOperations_ok {l : List SanitizedOperation} (seen : List String)
    (hids : (l.map SanitizedOperation.id).Nodup) (hseen : ∀ op ∈ l, op.id ∉ seen)
    (hdigest : ∀ op ∈ l, ∃ text, op.id = String.ofList (sha256Hex text))
    (htype : ∀ op ∈ l, supportedOperationType op.type = true) : validateOperations seen l = .ok () := by
  induction l generalizing seen with
  | nil => rfl
  | cons op l ih =>
    rw [map_cons, nodup_cons] at hids
    obtain ⟨text, htext⟩ := hdigest op mem_cons_self
    have hblank : trimSpace op.id ≠ "" := by
      rw [htext, trimSpace_digest]
      exact digest_ne_empty text
    have hnew : seen.contains op.id = false := by
      rw [Bool.eq_false_iff, ne_eq, contains_iff_mem]
      exact hseen op mem_cons_self
    unfold validateOperations
    rw [if_neg hblank, hnew, if_neg Bool.false_ne_true, htype op mem_cons_self, Bool.not_true,
      if_neg Bool.false_ne_true]
    refine ih _ hids.2 (fun o ho hmem => ?_) (fun o ho => hdigest o (mem_cons_of_mem _ ho))
      fun o ho => htype o (mem_cons_of_mem _ ho)
    rcases mem_cons.1 hmem with heq | hmem
    · exact hids.1 (heq ▸ mem_map_of_mem ho)
    · exact hseen o (mem_cons_of_mem _ ho) hmem

theorem supported_text (t : OperationType) : supportedOperationType t.text = true := by
  cases t <;> decide

/-- The canonical form of a planned operation has its ID and its type. -/
theorem canonical_sanitized (op : Operation) :
    (canonicalOperation (sanitizeOperation op)).id = (sanitizeOperation op).id ∧
      (canonicalOperation (sanitizeOperation op)).type = op.type.text := by
  have hid : trimSpace (sanitizeOperation op).id = (sanitizeOperation op).id := trimSpace_digest _
  have htype : trimSpace (sanitizeOperation op).type = op.type.text := by
    have h : (sanitizeOperation op).type = trimSpace op.type.text := rfl
    rw [h, trimSpace_text, trimSpace_text]
  have hne : (sanitizeOperation op).id ≠ "" := digest_ne_empty _
  unfold canonicalOperation
  rw [hid, htype]
  dsimp only
  rw [if_neg hne]
  exact ⟨rfl, rfl⟩

/-- A zone that is not empty in normal form is not blank, and neither is its normal form. -/
theorem zone_not_blank {zone : String} (h : normalizeDNSName zone ≠ "") :
    trimSpace zone ≠ "" ∧ trimSpace (normalizeDNSName zone) ≠ "" := by
  constructor
  · intro hblank
    refine h ?_
    rw [normalizeDNSName, hblank]
    rfl
  · -- the first character is the one of the trimmed zone
    have hinit : (normalizeDNSName zone).toList <+: (trimSpace (toLower zone)).toList := by
      rw [trimSpace_toLower]
      exact trimSuffix_prefix _ _
    cases hchars : (normalizeDNSName zone).toList with
    | nil => exact absurd (String.toList_inj.1 (hchars.trans String.toList_empty.symm)) h
    | cons c rest =>
      refine trimSpace_ne_empty (by rw [hchars]; rfl) ?_
      obtain ⟨tail, htail⟩ := hinit
      rw [hchars, trimSpace, String.toList_ofList] at htail
      refine trimBoth_head? (toLower zone).toList c ?_
      rw [← htail]
      rfl

/-- **Distinct contents make a valid document.** -/
theorem newDocument_valid {operations : List Operation}
    (hids : (operations.map fun op => (sanitizeOperation op).id).Nodup) (rt : DocumentRuntime)
    {target : TargetIdentity} (preconditions : Preconditions) (hname : trimSpace target.name ≠ "")
    (hzone : normalizeDNSName target.zone ≠ "") :
    (newDocument target preconditions operations).validate rt = .ok () ∧
      ∃ id, (newDocument target preconditions operations).id rt = .ok id := by
  obtain ⟨hzone, hzone'⟩ := zone_not_blank hzone
  constructor
  · rw [validate_operations rfl rfl]
    simp only [newDocument, ne_eq, not_true_eq_false, if_false, hname, hzone]
    refine validateOperations_ok [] ?_ (fun _ _ => not_mem_nil) ?_ ?_
    · rw [map_map]
      exact hids
    · intro op hop
      obtain ⟨o, -, rfl⟩ := mem_map.1 hop
      exact ⟨_, rfl⟩
    · intro op hop
      obtain ⟨o, -, rfl⟩ := mem_map.1 hop
      have h : (sanitizeOperation o).type = trimSpace o.type.text := rfl
      rw [h, trimSpace_text, supported_text]
  · -- sorting and trimming leave identifiers and types as they are
    have hops : validateOperations []
        (rt.sortBy operationSortKey ((operations.map sanitizeOperation).map canonicalOperation)) = .ok () := by
      have hperm := sortBy_perm rt operationSortKey ((operations.map sanitizeOperation).map canonicalOperation)
      have hmem : ∀ op ∈ rt.sortBy operationSortKey ((operations.map sanitizeOperation).map canonicalOperation),
          ∃ o, op = canonicalOperation (sanitizeOperation o) := by
        intro op hop
        obtain ⟨s, hs, rfl⟩ := mem_map.1 (hperm.subset hop)
        obtain ⟨o, -, rfl⟩ := mem_map.1 hs
        exact ⟨o, rfl⟩
      refine validateOperations_ok [] ?_ (fun _ _ => not_mem_nil) ?_ ?_
      · refine (hperm.map SanitizedOperation.id).nodup_iff.2 ?_
        rw [map_map, map_map]
        simpa only [Function.comp_def, (canonical_sanitized _).1] using hids
      · intro op hop
        obtain ⟨o, rfl⟩ := hmem op hop
        exact ⟨_, (canonical_sanitized o).1⟩
      · intro op hop
        obtain ⟨o, rfl⟩ := hmem op hop
        rw [(canonical_sanitized o).2, supported_text]
    have hcopy : ((newDocument target preconditions operations).canonicalCopy rt).validate rt = .ok () := by
      rw [newDocument_canonicalCopy, validate_operations rfl rfl]
      have hversion : withDefault documentAPIVersion documentAPIVersion = documentAPIVersion := by decide
      have hkind : withDefault documentKind documentKind = documentKind := by decide
      simp only [hversion, hkind, canonicalTarget, trimSpace_trimSpace, ne_eq, not_true_eq_false, if_false, hname,
        hzone', hops]
    unfold Document.id Document.canonicalJSON
    dsimp only
    rw [hcopy]
    exact ⟨_, rfl⟩

/-- The operations of a cycle: the ownership step, the planner, the conflicts of restricted
ownership and the guard. -/
def cycleOperations (rt : Runtime) (cfg : Config) (desired current : List Endpoint) (allowed : Endpoint → Bool)
    (count : Nat) : List Operation :=
  let owned := ownershipStep rt cfg current desired
  (guardCleanup (enforceRestrictedOwnershipConflicts
    (buildWithCleanupScope rt desired owned.1 cfg.ownerID cfg.cleanupPolicy allowed) owned.2) count cfg).1

/-- **The document of a cycle is valid.** In every mode of ownership, the operations of a cycle over
well-formed endpoints and rows have distinct identifiers unless two different contents have one
digest, and then the document of the cycle passes validation and has an identifier. -/
theorem planned_document_valid (rt : Runtime) (cfg : Config) (desired current : List Endpoint)
    (allowed : Endpoint → Bool) (count : Nat) (hd : ∀ e ∈ desired, e.WellFormed) (hc : TableOK current)
    (htrim : TrimmedIDs current) (hinj : ∀ a ∈ cycleOperations rt cfg desired current allowed count,
      ∀ b ∈ cycleOperations rt cfg desired current allowed count,
      operationID (sanitizedContent a) = operationID (sanitizedContent b) →
        sanitizedContent a = sanitizedContent b) :
    ((cycleOperations rt cfg desired current allowed count).map fun op => (sanitizeOperation op).id).Nodup ∧
      ∀ (dr : DocumentRuntime) (target : TargetIdentity) (preconditions : Preconditions),
        trimSpace target.name ≠ "" → normalizeDNSName target.zone ≠ "" →
        (newDocument target preconditions (cycleOperations rt cfg desired current allowed count)).validate dr =
          .ok () ∧
          ∃ id, (newDocument target preconditions
            (cycleOperations rt cfg desired current allowed count)).id dr = .ok id := by
  obtain ⟨htable, hids, hconflicts⟩ := ownershipStep_ok rt cfg hd hc htrim
  have hcontents : ((cycleOperations rt cfg desired current allowed count).map sanitizedContent).Nodup :=
    (enforced_contents_nodup hconflicts hd htable hids).sublist (guardCleanup_sublist.map _)
  have hnodup : ((cycleOperations rt cfg desired current allowed count).map
      fun op => (sanitizeOperation op).id).Nodup := by
    rw [List.Nodup, pairwise_map] at hcontents ⊢
    exact hcontents.imp_of_mem fun ha hb hne heq => hne (hinj _ ha _ hb heq)
  exact ⟨hnodup, fun dr _ preconditions hname hzone => newDocument_valid hnodup dr preconditions hname hzone⟩

/-- Two copies of a row are deleted: the operations differ in the provider ID only. -/
theorem planned_document_valid_copies :
    (cycleOperations .plain { ownerID := "blue", allowEmptyDesiredCleanup := true } [] copiedRows
      (fun _ => true) 0).map
        (fun op => (op.type, operationKey op)) =
      [(.delete, "example.com|app.example.com|A|192.0.2.1"),
        (.delete, "example.com|app.example.com|A|192.0.2.1")] ∧
    ∃ id, (newDocument { name := "edge", zone := "example.com" } {} (cycleOperations .plain
      { ownerID := "blue", allowEmptyDesiredCleanup := true } [] copiedRows (fun _ => true) 0)).id .plain =
        .ok id :=
  ⟨by decide +kernel, ((planned_document_valid .plain { ownerID := "blue", allowEmptyDesiredCleanup := true } []
    copiedRows (fun _ => true) 0 (by decide +kernel) (by decide +kernel) (by decide +kernel)
      (by decide +kernel)).2
    .plain { name := "edge", zone := "example.com" } {} (by decide +kernel) (by decide +kernel)).2⟩

end FortigateDns
