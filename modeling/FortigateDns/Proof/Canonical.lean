import FortigateDns.Go.Casing
import FortigateDns.Go.Sort
import FortigateDns.Spec.Document

/-!
# Canonical bytes and the order of operations

The canonical JSON of a document made from operations depends on the operations only up to
order. The identifiers are digests, which two operations may share; then the document is
refused, in every order with the same error.
-/

namespace FortigateDns

open Go List

variable {α : Type}
variable (text : List Char)

/-- The separator of sort keys does not occur in a text. -/
def NoNul (s : String) : Prop := '\x00' ∉ s.toList

instance (s : String) : Decidable (NoNul s) := inferInstanceAs (Decidable ('\x00' ∉ s.toList))

theorem NoNul.trimSpace {s : String} (h : NoNul s) : NoNul (trimSpace s) := by
  intro hmem
  unfold Go.trimSpace trimBoth at hmem
  rw [String.toList_ofList, mem_reverse] at hmem
  have hmem := (dropWhile_sublist _).subset hmem
  rw [mem_reverse] at hmem
  exact h ((dropWhile_sublist _).subset hmem)

theorem noNul_sha256Hex : NoNul (String.ofList (sha256Hex text)) := by
  unfold NoNul
  rw [String.toList_ofList]
  intro hmem
  exact absurd (sha256Hex_mem hmem) (by decide)

theorem trimSpace_digest : trimSpace (String.ofList (sha256Hex text)) = String.ofList (sha256Hex text) := by
  have hspace : ∀ c ∈ sha256Hex text, isSpace c = false := fun c hc =>
    (show ∀ c ∈ "0123456789abcdef".toList, isSpace c = false by decide) c (sha256Hex_mem hc)
  unfold trimSpace
  rw [String.toList_ofList, trimBoth_eq_self]
  · exact fun c hc => hspace c (mem_of_head? hc)
  · exact fun c hc => hspace c (mem_of_getLast? hc)

theorem digest_ne_empty : String.ofList (sha256Hex text) ≠ "" := by
  intro h
  have hnil := congrArg String.toList h
  rw [String.toList_ofList] at hnil
  exact sha256Hex_ne_nil text hnil

theorem noNul_operationReason (reason : String) : NoNul (operationReason reason) := by
  unfold operationReason
  dsimp only
  split_ifs <;> decide

theorem noNul_canonicalReason {reason : String} (h : NoNul reason) : NoNul (canonicalOperationReason reason) := by
  unfold canonicalOperationReason
  split
  · exact h
  · decide

/-- The parts of the sort key of an operation. -/
structure PlainKey (op : SanitizedOperation) : Prop where
  id : NoNul op.id
  type : NoNul op.type
  reason : NoNul op.reason

theorem plainKey_canonical {op : SanitizedOperation} (h : PlainKey op) : PlainKey (canonicalOperation op) := by
  unfold canonicalOperation
  dsimp only
  split
  · exact ⟨noNul_sha256Hex _, h.type.trimSpace, noNul_canonicalReason h.reason⟩
  · exact ⟨h.id.trimSpace, h.type.trimSpace, noNul_canonicalReason h.reason⟩

theorem plainKey_sanitize (operation : Operation) : PlainKey (sanitizeOperation operation) := by
  have htype : NoNul operation.type.text := by cases operation.type <;> decide
  unfold sanitizeOperation sanitizedContent operationID
  constructor <;> dsimp only
  · exact noNul_sha256Hex _
  · exact htype.trimSpace
  · exact noNul_operationReason _

/-- The sort key tells its parts. -/
theorem operationSortKey_inj {op op' : SanitizedOperation} (h : PlainKey op) (h' : PlainKey op')
    (heq : operationSortKey op = operationSortKey op') : op.id = op'.id ∧ op.type = op'.type := by
  have hl : ∀ {o : SanitizedOperation}, PlainKey o → ∀ s ∈ [o.id, o.type, o.reason], '\x00' ∉ s.toList := by
    intro o ho s hs
    simp only [mem_cons, not_mem_nil, or_false] at hs
    rcases hs with rfl | rfl | rfl
    · exact ho.id
    · exact ho.type
    · exact ho.reason
  have := join_inj (c := '\x00') (by decide) (by simp) (by simp) (hl h) (hl h') heq
  simp only [List.cons.injEq, and_true] at this
  exact ⟨this.1, this.2.1⟩

variable {dr dr' : DocumentRuntime} {l l' : List SanitizedOperation}

theorem sortBy_perm (dr : DocumentRuntime) (key : α → String) (l : List α) : (dr.sortBy key l).Perm l :=
  (perm_insertionSort _ _).trans (dr.tie_perm α l)

theorem sortBy_sorted (dr : DocumentRuntime) (key : α → String) (l : List α) :
    (dr.sortBy key l).Pairwise fun a b => key a ≤ key b := pairwise_insertionSort_key key _

/-- Identifiers and types of the sorted operations, position by position. -/
theorem sorted_ids (dr dr' : DocumentRuntime) (hperm : l.Perm l') (hplain : ∀ op ∈ l, PlainKey op) :
    List.Forall₂ (fun a b => a.id = b.id ∧ a.type = b.type) (dr.sortBy operationSortKey l)
      (dr'.sortBy operationSortKey l') := by
  have hsorted : (dr.sortBy operationSortKey l).Perm (dr'.sortBy operationSortKey l') :=
    (sortBy_perm dr _ l).trans (hperm.trans (sortBy_perm dr' _ l').symm)
  have hkeys := keys_eq_of_perm hsorted (sortBy_sorted dr _ l) (sortBy_sorted dr' _ l')
  have hmem : ∀ op ∈ dr.sortBy operationSortKey l, PlainKey op :=
    fun op hop => hplain op ((sortBy_perm dr _ l).mem_iff.1 hop)
  have hmem' : ∀ op ∈ dr'.sortBy operationSortKey l', PlainKey op :=
    fun op hop => hmem op (hsorted.mem_iff.2 hop)
  exact forall₂_of_keys hkeys fun a ha b hb hab => operationSortKey_inj (hmem a ha) (hmem' b hb) hab

/-- Validation reads identifiers and types only. -/
theorem validateOperations_congr (seen : List String)
    (h : List.Forall₂ (fun a b : SanitizedOperation => a.id = b.id ∧ a.type = b.type) l l') :
    validateOperations seen l = validateOperations seen l' := by
  induction h generalizing seen with
  | nil => rfl
  | @cons a b l l' hab _ ih =>
    unfold validateOperations
    rw [hab.1, hab.2, ih]

/-- Operations that pass validation have distinct identifiers. -/
theorem validateOperations_nodup {seen : List String} (h : validateOperations seen l = .ok ()) :
    (l.map SanitizedOperation.id).Nodup ∧ ∀ op ∈ l, op.id ∉ seen := by
  induction l generalizing seen with
  | nil => simp
  | cons op l ih =>
    unfold validateOperations at h
    split at h
    · simp at h
    split at h
    · simp at h
    rename_i hseen
    split at h
    · simp at h
    obtain ⟨hnd, hnot⟩ := ih h
    refine ⟨nodup_cons.2 ⟨fun hmem => ?_, hnd⟩, forall_mem_cons.2 ⟨by simpa using hseen, fun o ho hs => ?_⟩⟩
    · obtain ⟨o, ho, hid⟩ := mem_map.1 hmem
      exact hnot o ho (hid ▸ mem_cons_self)
    · exact hnot o ho (mem_cons_of_mem _ hs)

/-- Where validation accepts the operations, they are sorted in one way only. -/
theorem sorted_eq (dr' : DocumentRuntime) (hperm : l.Perm l') (hplain : ∀ op ∈ l, PlainKey op)
    (hok : validateOperations [] (dr.sortBy operationSortKey l) = .ok ()) :
    dr.sortBy operationSortKey l = dr'.sortBy operationSortKey l' := by
  have hsorted : (dr.sortBy operationSortKey l).Perm (dr'.sortBy operationSortKey l') :=
    (sortBy_perm dr _ l).trans (hperm.trans (sortBy_perm dr' _ l').symm)
  refine eq_of_perm_of_keys hsorted (sortBy_sorted dr _ l) (sortBy_sorted dr' _ l') ?_
  refine List.Nodup.map_on (fun a ha b hb hab => ?_)
    (List.Nodup.of_map SanitizedOperation.id (validateOperations_nodup hok).1)
  have hmem : ∀ op ∈ dr.sortBy operationSortKey l, PlainKey op :=
    fun op hop => hplain op ((sortBy_perm dr _ l).mem_iff.1 hop)
  exact inj_on_of_nodup_map (validateOperations_nodup hok).1 ha hb
    (operationSortKey_inj (hmem a ha) (hmem b hb) hab).1

theorem sortBy_nil (dr : DocumentRuntime) (key : α → String) : dr.sortBy key [] = [] :=
  perm_nil.1 (sortBy_perm dr key [])

theorem dependencyCycle_nil (dr : DocumentRuntime) : dependencyCycle dr [] = "" := by
  have horder : dr.order [] = [] := perm_nil.1 (dr.order_perm [])
  unfold dependencyCycle
  dsimp only
  rw [show (GoMap.groupBy PrerequisiteEdge.operationID []).keys = [] from rfl, horder]
  rfl

/-- Validation of a document that has operations only. -/
theorem validate_operations {d : Document} (hpre : d.prerequisites = []) (hdec : d.safetyDecisions = []) :
    d.validate dr =
      if d.apiVersion ≠ documentAPIVersion then .error (.unsupportedAPIVersion d.apiVersion)
      else if d.kind ≠ documentKind then .error (.unsupportedKind d.kind)
      else if trimSpace d.target.name = "" then .error .targetNameRequired
      else if trimSpace d.target.zone = "" then .error .targetZoneRequired
      else validateOperations [] d.operations := by
  unfold Document.validate
  rw [hpre, hdec, dependencyCycle_nil]
  cases validateOperations [] d.operations with
  | error err => rfl
  | ok u => rfl

/-- Two checks with the same verdict, and what is returned when it is positive. -/
theorem return_congr {ε : Type} {x y : Except ε Unit} {a b : α} (hxy : x = y) (h : x = .ok () → a = b) :
    (do x; return a) = (do y; return b) := by
  subst hxy
  cases x with
  | error err => rfl
  | ok u => rw [h rfl]

theorem newDocument_canonicalCopy (dr : DocumentRuntime) (target : TargetIdentity) (preconditions : Preconditions)
    (operations : List Operation) : (newDocument target preconditions operations).canonicalCopy dr =
      { apiVersion := withDefault documentAPIVersion documentAPIVersion
        kind := withDefault documentKind documentKind
        target := canonicalTarget target
        preconditions := canonicalPreconditions dr preconditions
        operations := dr.sortBy operationSortKey
          ((operations.map sanitizeOperation).map canonicalOperation) } := by
  unfold Document.canonicalCopy newDocument deduplicatePrerequisites
  simp only [map_nil, sortBy_nil]
  rfl

/-- **Canonical JSON does not see the order of the operations.** The sorts of the preconditions,
which are the same in both documents, are taken to come out the same. -/
theorem canonicalJSON_perm {target : TargetIdentity} {preconditions : Preconditions}
    {operations operations' : List Operation}
    (hpre : canonicalPreconditions dr preconditions = canonicalPreconditions dr' preconditions)
    (hperm : (operations.map sanitizeOperation).Perm (operations'.map sanitizeOperation)) :
    (newDocument target preconditions operations).canonicalJSON dr =
      (newDocument target preconditions operations').canonicalJSON dr' := by
  have hplain : ∀ op ∈ (operations.map sanitizeOperation).map canonicalOperation, PlainKey op := by
    intro op hop
    obtain ⟨o, ho, rfl⟩ := mem_map.1 hop
    obtain ⟨operation, -, rfl⟩ := mem_map.1 ho
    exact plainKey_canonical (plainKey_sanitize operation)
  have hcanonical := hperm.map canonicalOperation
  have hids := validateOperations_congr [] (sorted_ids dr dr' hcanonical hplain)
  unfold Document.canonicalJSON
  -- the two canonical copies differ in their operations only
  rw [newDocument_canonicalCopy, newDocument_canonicalCopy]
  refine return_congr ?_ fun hok => ?_
  · rw [validate_operations rfl rfl, validate_operations rfl rfl]
    dsimp only
    rw [hids]
  · rw [validate_operations rfl rfl] at hok
    dsimp only at hok
    rw [sorted_eq dr' hcanonical hplain, hpre]
    split_ifs at hok
    exact hok

/-- So does the identifier. -/
theorem documentID_perm {target : TargetIdentity} {preconditions : Preconditions}
    {operations operations' : List Operation}
    (hpre : canonicalPreconditions dr preconditions = canonicalPreconditions dr' preconditions)
    (hperm : (operations.map sanitizeOperation).Perm (operations'.map sanitizeOperation)) :
    (newDocument target preconditions operations).id dr =
    (newDocument target preconditions operations').id dr' := by
  unfold Document.id
  rw [canonicalJSON_perm hpre hperm]

theorem sanitizeEndpoint_eq {e : Endpoint} (he : e.WellFormed) :
    sanitizeEndpoint e = some (sanitizeRecord e) := by
  unfold sanitizeEndpoint endpointIsZero
  rw [if_neg (by simp [he.name])]

end FortigateDns
