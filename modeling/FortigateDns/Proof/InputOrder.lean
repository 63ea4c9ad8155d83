import FortigateDns.Proof.PlanOrder
import FortigateDns.Proof.ValidPlan

/-!
# Plans of reordered inputs

The planner sorts the owned rows of a name, but not the unowned ones: a conflict names the first
unowned row that stands in the way, in the order of the listing. So a plan depends on the order
of its input when a name has several unowned rows that a conflict may name.
-/

namespace FortigateDns

open Go List

variable {desired current D C C' : List Endpoint} {ownerID : String} {cleanup : CleanupPolicy}
variable {allowed : Endpoint → Bool} {g : String} {e c c' : Endpoint}
variable {plan plan' : List Operation}

/-- What `partitionOwned` sorts by, as a key. -/
def ownedKey (c : Endpoint) : Bool ×ₗ String := toLex (!hasProviderID c, c.providerID)

theorem ownedLE_iff {a b : Endpoint} : ownedLE a b = true ↔ ownedKey a ≤ ownedKey b := by
  unfold ownedLE ownedKey
  rw [Prod.Lex.toLex_le_toLex]
  cases ha : hasProviderID a <;> cases hb : hasProviderID b <;> simp

section SameRows

variable (hids : (C.map Endpoint.providerID).Nodup) (hperm : C.Perm C')
include hids hperm

/-- The owned rows come in one order. -/
theorem owned_eq_of_perm (ownerID : String) : (partitionOwned C ownerID).1 = (partitionOwned C' ownerID).1 := by
  unfold partitionOwned
  simp only [ownedLE_iff]
  have hsort : ∀ l : List Endpoint, (l.insertionSort fun a b => ownedKey a ≤ ownedKey b).Perm l :=
    fun l => perm_insertionSort _ l
  refine eq_of_perm_of_keys ((hsort _).trans ((hperm.filter _).trans (hsort _).symm))
    (pairwise_insertionSort_key ownedKey _) (pairwise_insertionSort_key ownedKey _) ?_
  rw [((hsort _).map ownedKey).nodup_iff]
  -- the provider ID is part of the key
  refine List.Nodup.of_map (fun k => (ofLex k).2) ?_
  rw [map_map]
  exact hids.sublist (filter_sublist.map _)

theorem copies_eq_of_perm (ownerID : String) (e : Endpoint) : copies ownerID C e = copies ownerID C' e :=
  owned_eq_of_perm (hids.sublist (filter_sublist.map _)) (hperm.filter _) ownerID

omit hids in
theorem siblings_nil_of_perm (ownerID : String) (e : Endpoint) :
    unownedSiblings ownerID C e = [] ↔ unownedSiblings ownerID C' e = [] := by
  rw [unownedSiblings_eq_nil, unownedSiblings_eq_nil]
  exact ⟨fun h c hc => h c (hperm.mem_iff.2 hc), fun h c hc => h c (hperm.mem_iff.1 hc)⟩

theorem missing_eq_of_perm : missing ownerID D C = missing ownerID D C' := by
  unfold missing
  simp only [siblings_nil_of_perm hperm, copies_eq_of_perm hids hperm]

theorem stale_perm : (stale ownerID allowed D C).Perm (stale ownerID allowed D C') := by
  have hdup : duplicatesOf ownerID allowed C = duplicatesOf ownerID allowed C' := by
    funext e
    unfold duplicatesOf
    simp only [siblings_nil_of_perm hperm, copies_eq_of_perm hids hperm]
  have horphan : orphaned ownerID allowed D C = orphaned ownerID allowed D C' := by
    funext c
    unfold orphaned
    simp only [siblings_nil_of_perm hperm]
  unfold stale
  rw [hdup, horphan]
  exact (hperm.filter _).append_left _

theorem partner_eq_of_perm (e : Endpoint) :
    partner ownerID cleanup allowed D C e = partner ownerID cleanup allowed D C' e := by
  unfold partner
  rw [missing_eq_of_perm hids hperm]
  split
  · have hstale : ((stale ownerID allowed D C).filter fun s => s.logicalKey = e.logicalKey).Perm
        ((stale ownerID allowed D C').filter fun s => s.logicalKey = e.logicalKey) :=
          (stale_perm hids hperm).filter _
    -- a single row is the same in every order
    generalize ((stale ownerID allowed D C).filter fun s => s.logicalKey = e.logicalKey) = l at hstale ⊢
    generalize ((stale ownerID allowed D C').filter fun s => s.logicalKey = e.logicalKey) = l' at hstale ⊢
    rcases l with _ | ⟨s, _ | ⟨t, l⟩⟩
    · rw [nil_perm.1 hstale]
    · rw [singleton_perm.1 hstale]
    · rcases l' with _ | ⟨s', _ | ⟨t', l'⟩⟩
      · simp at hstale
      · simp at hstale
      · rfl
  · rfl

theorem paired_eq_of_perm (logical : String) :
    paired ownerID cleanup allowed D C logical = paired ownerID cleanup allowed D C' logical := by
  unfold paired
  simp only [missing_eq_of_perm hids hperm, partner_eq_of_perm hids hperm]

theorem created_eq_of_perm : created ownerID cleanup allowed D C = created ownerID cleanup allowed D C' := by
  unfold created
  simp only [missing_eq_of_perm hids hperm, paired_eq_of_perm hids hperm]

theorem cleanupOperations_perm :
    (cleanupOperations ownerID cleanup allowed D C).Perm (cleanupOperations ownerID cleanup allowed D C') := by
  unfold cleanupOperations leftover
  simp only [created_eq_of_perm hids hperm, paired_eq_of_perm hids hperm]
  split
  · exact ((stale_perm hids hperm).filter _).filterMap _
  · exact List.Perm.refl _

end SameRows

/-- **The unowned rows of a name are alike**, its CNAME records and its other records each: a document
does not tell them apart. A conflict of one endpoint may name rows of one of the two kinds only. -/
def UnownedAlike (ownerID : String) (C : List Endpoint) : Prop :=
  ∀ c ∈ C, ∀ c' ∈ C, ownedBy c ownerID = false → ownedBy c' ownerID = false →
    (c.recordType = recordCNAME ↔ c'.recordType = recordCNAME) → sanitizeRecord c = sanitizeRecord c'

theorem sanitize_current (hc : c.WellFormed) (hc' : c'.WellFormed) (h : sanitizeRecord c = sanitizeRecord c')
    (op : Operation) :
    sanitizeOperation { op with current := c } = sanitizeOperation { op with current := c' } := by
  have hcontent : sanitizedContent { op with current := c } = sanitizedContent { op with current := c' } := by
    unfold sanitizedContent
    dsimp only
    rw [sanitizeEndpoint_eq hc, sanitizeEndpoint_eq hc', h]
  unfold sanitizeOperation
  rw [hcontent]

/-- The first row of a kind, as far as the rows of that kind are alike. -/
theorem find?_map_perm {β : Type} {q : Endpoint → Bool} {f : Endpoint → β} (hperm : C.Perm C')
    (h : ∀ c ∈ C, ∀ c' ∈ C, q c = true → q c' = true → f c = f c') : (C.find? q).map f = (C'.find? q).map f := by
  cases hf : C.find? q with
  | none =>
    rw [find?_eq_none] at hf
    rw [find?_eq_none.2 fun c hc => hf c (hperm.mem_iff.2 hc)]
  | some c =>
    have hc := mem_of_find?_eq_some hf
    have hq := find?_some hf
    cases hf' : C'.find? q with
    | none =>
      rw [find?_eq_none] at hf'
      exact absurd hq (hf' c (hperm.mem_iff.1 hc))
    | some c' =>
      rw [Option.map_some, Option.map_some,
        h c hc c' (hperm.mem_iff.2 (mem_of_find?_eq_some hf')) hq (find?_some hf')]

section SameConflicts

variable (h : NameOK g D C) (hperm : C.Perm C') (halike : UnownedAlike ownerID C)
include h hperm halike

/-- A conflict that names the first row of a kind. -/
theorem firstConflict_sanitized {q : Endpoint → Bool} (cname : Prop) (e : Endpoint) (reason : String)
    (hq : ∀ c ∈ C, q c = true → ownedBy c ownerID = false ∧ (c.recordType = recordCNAME ↔ cname)) :
    ((C.find? q).map fun c => sanitizeOperation
      { type := .conflict, desired := e, current := c, reason := reason }) =
      (C'.find? q).map fun c => sanitizeOperation
      { type := .conflict, desired := e, current := c, reason := reason } := by
  refine find?_map_perm hperm fun c hc c' hc' hqc hqc' => ?_
  obtain ⟨hunowned, hkind⟩ := hq c hc hqc
  obtain ⟨hunowned', hkind'⟩ := hq c' hc' hqc'
  exact sanitize_current (h.rows c hc).1 (h.rows c' hc').1
    (halike c hc c' hc' hunowned hunowned' (hkind.trans hkind'.symm))
      { type := .conflict, desired := e, reason := reason }

/-- The conflict with a row of an excluding type: a CNAME excludes all other types. -/
theorem unownedConflict_sanitized (e : Endpoint) :
    (unownedConflict ownerID C e).map sanitizeOperation =
    (unownedConflict ownerID C' e).map sanitizeOperation := by
  unfold unownedConflict unownedCNAMEConflict partitionOwned
  simp only [find?_filter, Option.map_map]
  refine firstConflict_sanitized h hperm halike (e.recordType ≠ recordCNAME) e reasonUnownedCNAME
    fun c _ hc => ?_
  simp only [cnameTypesConflict, Bool.and_eq_true, Bool.not_eq_true', bne_iff_ne, Bool.or_eq_true, beq_iff_eq,
    decide_eq_true_eq] at hc
  obtain ⟨hunowned, hne, hcname⟩ := hc
  refine ⟨hunowned, fun hc he => hne (he.trans hc.symm), fun he => hcname.resolve_left he⟩

/-- The conflict with a row of the same record. -/
theorem recordConflict_sanitized (he : e ∈ D) :
    (recordConflict ownerID C e).map sanitizeOperation = (recordConflict ownerID C' e).map sanitizeOperation := by
  unfold recordConflict unownedSiblings partitionOwned
  simp only [filter_filter, head?_filter, Option.map_map]
  refine firstConflict_sanitized h hperm halike (e.recordType = recordCNAME) e reasonNotOwned fun c hc hq => ?_
  simp only [Bool.and_eq_true, Bool.not_eq_true', decide_eq_true_eq] at hq
  obtain ⟨hwf, hg⟩ := h.rows c hc
  obtain ⟨hwf', hg'⟩ := h.desired e he
  rw [(logicalKey_iff_type hwf hwf' (hg.trans hg'.symm)).1 hq.2]
  exact ⟨hq.1, Iff.rfl⟩

/-- The decision about a transition. -/
theorem transition_sanitized :
    (cnameTransition D C (C.filter fun c => c.logicalKey = (D.headD {}).logicalKey) ownerID cleanup
        allowed).map sanitizeOperation =
      (cnameTransition D C' (C'.filter fun c => c.logicalKey = (D.headD {}).logicalKey) ownerID cleanup
        allowed).map sanitizeOperation := by
  unfold cnameTransition
  dsimp only
  rw [owned_eq_of_perm h.ids hperm]
  split
  · rfl
  by_cases hblocked : ∃ e, D = [e] ∧ unownedSiblings ownerID C e ≠ []
  · -- the only endpoint is in conflict with the first row of its record
    obtain ⟨e, rfl, hsib⟩ := hblocked
    have hfirst := recordConflict_sanitized h hperm halike mem_cons_self
    obtain ⟨c, l, hl⟩ := exists_cons_of_ne_nil hsib
    obtain ⟨c', l', hl'⟩ := exists_cons_of_ne_nil (mt (siblings_nil_of_perm hperm ownerID e).2 hsib)
    unfold recordConflict at hfirst
    rw [hl, hl'] at hfirst
    unfold unownedSiblings at hl hl'
    rw [headD_cons, hl, hl', if_pos ⟨rfl, by simp⟩, if_pos ⟨rfl, by simp⟩]
    exact hfirst
  · have hno : ∀ C₀ : List Endpoint, (∀ e, unownedSiblings ownerID C e = [] ↔ unownedSiblings ownerID C₀ e = []) →
        ¬ (D.length = 1 ∧
          0 < (partitionOwned (C₀.filter fun c => c.logicalKey = (D.headD {}).logicalKey) ownerID).2.length) := by
      rintro C₀ hnil ⟨hone, hpos⟩
      obtain ⟨e, rfl⟩ := length_eq_one_iff.1 hone
      exact hblocked ⟨e, rfl, mt (hnil e).1 (ne_nil_of_length_pos hpos)⟩
    rw [if_neg (hno C fun _ => Iff.rfl), if_neg (hno C' (siblings_nil_of_perm hperm ownerID))]

theorem nameDecision_sanitized (cleanup : CleanupPolicy) (allowed : Endpoint → Bool) :
    (nameDecision ownerID cleanup allowed D C).map sanitizeOperation =
      (nameDecision ownerID cleanup allowed D C').map sanitizeOperation := by
  have hconflicts : Option.map sanitizeOperation ∘ unownedConflict ownerID C =
      Option.map sanitizeOperation ∘ unownedConflict ownerID C' :=
    funext fun e => unownedConflict_sanitized h hperm halike e
  unfold nameDecision nameConflict
  rw [Option.map_or, Option.map_or, Option.map_or, Option.map_or, map_findSome?, map_findSome?, hconflicts,
    transition_sanitized h hperm halike]

/-- Conflict or update of one endpoint. -/
theorem recordOperation_sanitized (he : e ∈ D) :
    (recordOperation ownerID C e).map sanitizeOperation =
    (recordOperation ownerID C' e).map sanitizeOperation := by
  unfold recordOperation
  by_cases hsib : unownedSiblings ownerID C e = []
  · rw [if_pos hsib, if_pos ((siblings_nil_of_perm hperm ownerID e).1 hsib)]
    unfold recordUpdate
    rw [copies_eq_of_perm h.ids hperm]
  · rw [if_neg hsib, if_neg (mt (siblings_nil_of_perm hperm ownerID e).2 hsib)]
    exact recordConflict_sanitized h hperm halike he

/-- **The operations of a name whose unowned rows are alike** do not depend on the order of its
rows, as far as a document shows them. -/
theorem groupPlan_sanitized :
    ((groupPlan ownerID cleanup allowed D C).map sanitizeOperation).Perm
      ((groupPlan ownerID cleanup allowed D C').map sanitizeOperation) := by
  have hname := nameDecision_sanitized h hperm halike cleanup allowed
  unfold groupPlan
  cases hn : nameDecision ownerID cleanup allowed D C with
  | some op =>
    rw [hn, Option.map_some, eq_comm, Option.map_eq_some_iff] at hname
    obtain ⟨op', hn', heq⟩ := hname
    rw [hn']
    simp [heq]
  | none =>
    rw [hn, Option.map_none, eq_comm, Option.map_eq_none_iff] at hname
    rw [hname]
    unfold recordPlan
    simp only [map_append, map_filterMap]
    have hrecord : (D.filterMap fun e => (recordOperation ownerID C e).map sanitizeOperation) =
        D.filterMap fun e => (recordOperation ownerID C' e).map sanitizeOperation :=
      filterMap_congr fun e he => recordOperation_sanitized h hperm halike he
    have hreplace : recordReplacement ownerID cleanup allowed D C = recordReplacement ownerID cleanup
      allowed D C' := by
      funext e
      unfold recordReplacement
      rw [partner_eq_of_perm h.ids hperm]
    rw [hrecord, hreplace, missing_eq_of_perm h.ids hperm, created_eq_of_perm h.ids hperm]
    exact ((cleanupOperations_perm h.ids hperm).map _).append_left _

end SameConflicts

theorem desiredValues_perm (hd : ∀ e ∈ desired, e.WellFormed) (hkeys : (desired.map Endpoint.key).Nodup) :
    (desiredValues desired).Perm desired := by
  refine (perm_ext_iff_of_nodup (List.Nodup.of_map Endpoint.key (desiredValues_keys_nodup hd))
    (List.Nodup.of_map Endpoint.key hkeys)).2 fun e => ⟨mem_of_mem_desiredValues hd, fun he => ?_⟩
  exact (mem_desiredOf.1 (mem_desiredOf_self hd hkeys he)).1

/-- The desired endpoints of a name come in one order. -/
theorem desiredOf_eq_of_perm {desired' : List Endpoint} (hd : ∀ e ∈ desired, e.WellFormed)
    (hkeys : (desired.map Endpoint.key).Nodup) (hperm : desired'.Perm desired) (g : String) :
    desiredOf desired' g = desiredOf desired g := by
  have hd' : ∀ e ∈ desired', e.WellFormed := fun e he => hd e (hperm.mem_iff.1 he)
  have hvalues : (desiredValues desired').Perm (desiredValues desired) :=
    (desiredValues_perm hd' ((hperm.map _).nodup_iff.2 hkeys)).trans
      (hperm.trans (desiredValues_perm hd hkeys).symm)
  exact @sort_eq_desiredOf .plain _ hd _ hvalues g

theorem TableOK.perm {current' : List Endpoint} (h : TableOK current) (hperm : current'.Perm current) :
    TableOK current' where
  wf c hc := h.wf c (hperm.mem_iff.1 hc)
  ids := (hperm.map _).nodup_iff.2 h.ids
  nonBlank c hc := h.nonBlank c (hperm.mem_iff.1 hc)

/-- Two plans whose documents have the same canonical JSON and the same identifier, for every target and all
preconditions. -/
structure SameDocuments (plan plan' : List Operation) : Prop where
  json : ∀ (dr dr' : DocumentRuntime) target preconditions,
    canonicalPreconditions dr preconditions = canonicalPreconditions dr' preconditions →
    (newDocument target preconditions plan).canonicalJSON dr =
      (newDocument target preconditions plan').canonicalJSON dr'
  id : ∀ (dr dr' : DocumentRuntime) target preconditions,
    canonicalPreconditions dr preconditions = canonicalPreconditions dr' preconditions →
    (newDocument target preconditions plan).id dr = (newDocument target preconditions plan').id dr'

theorem sameDocuments (h : (plan.map sanitizeOperation).Perm (plan'.map sanitizeOperation)) :
    SameDocuments plan plan' :=
  ⟨fun _ _ _ _ hpre => canonicalJSON_perm hpre h, fun _ _ _ _ hpre => documentID_perm hpre h⟩

/-- An address record of `app.example.com`. -/
def appRow (target owner id : String) : Endpoint :=
  { dnsName := "app.example.com", recordType := "A", targets := [target], zone := "example.com", ownerID := owner
    providerID := id }

end FortigateDns
