import FortigateDns.Proof.ValidDocument
import FortigateDns.Spec.ChangePlan

/-!
# Persisted plans

`NewChangePlanObject` writes the canonical document of a plan, its hash and summaries of both into
the spec of an object. `DocumentFromChangePlan` compares them one by one when the object is read
back. Together the comparisons say that **the spec is the one that is written for the decoded
document** (`documentFromChangePlan_iff`).
-/

namespace FortigateDns

open Go

variable {expiresAt : Option Nat} {spec : ChangePlanSpec}

/-- Another order of ranging over maps: the one thing that differs from one run to the next. The
sort of the runtime is the same function in all of them. -/
def DocumentRuntime.reordered (dr : DocumentRuntime) (order : List String → List String)
    (horder : ∀ l, (order l).Perm l) : DocumentRuntime :=
  { dr with order := order, order_perm := horder }

section Writing

variable (dr : DocumentRuntime) (d : Document)

/-- The canonical JSON is that of the canonical copy, if it is accepted. -/
theorem canonicalJSON_ok_iff {text : List Char} :
    d.canonicalJSON dr = .ok text ↔ AcceptableDocument (d.canonicalCopy dr) ∧ text =
      (d.canonicalCopy dr).json := by
  rw [← validateDocument_iff dr]
  unfold Document.canonicalJSON
  cases hvalid : (d.canonicalCopy dr).validate dr with
  | error err => simp [hvalid, bind, Except.bind]
  | ok _ =>
    simp only [hvalid, bind, Except.bind, pure, Except.pure, Except.ok.injEq, true_and]
    exact eq_comm

theorem id_ok_iff {hash : String} :
    d.id dr = .ok hash ↔ ∃ text, d.canonicalJSON dr = .ok text ∧ hash = String.ofList (sha256Hex text) := by
  unfold Document.id
  cases d.canonicalJSON dr with
  | error err => simp [bind, Except.bind]
  | ok text =>
    simp only [bind, Except.bind, pure, Except.pure, Except.ok.injEq, exists_eq_left']
    exact eq_comm

/-- **The spec that is written for a document.** -/
theorem newChangePlanSpec_iff :
    newChangePlanSpec dr d expiresAt = .ok spec ↔
      d.canonicalJSON dr = .ok spec.canonicalDocument ∧
      spec.planHash = String.ofList (sha256Hex spec.canonicalDocument) ∧
      summarizeOperations dr d = .ok spec.operations ∧
      ownershipResourceVersions [] d.preconditions.ownership = .ok spec.ownershipResourceVersions ∧
      spec.schemaVersion = documentSchemaVersion ∧ spec.targetRef = d.target.name ∧
      spec.providerRevision = d.preconditions.provider.revision ∧
      spec.discoveryGeneration = d.preconditions.discovery.generation ∧
      spec.policyGeneration = d.preconditions.policy.generation ∧ spec.expiresAt = expiresAt := by
  unfold newChangePlanSpec
  cases hjson : d.canonicalJSON dr with
  | error err => simp [ofDocument, bind, Except.bind]
  | ok text =>
  have hid : d.id dr = .ok (String.ofList (sha256Hex text)) := (id_ok_iff dr d).2 ⟨text, hjson, rfl⟩
  cases hoperations : summarizeOperations dr d with
  | error err => simp [ofDocument, hid, bind, Except.bind]
  | ok operations =>
  cases hversions : ownershipResourceVersions [] d.preconditions.ownership with
  | error err => simp [ofDocument, hid, bind, Except.bind]
  | ok versions =>
    simp only [hid, ofDocument, bind, Except.bind, pure, Except.pure, Except.ok.injEq]
    constructor
    · rintro rfl
      exact ⟨rfl, rfl, rfl, rfl, rfl, rfl, rfl, rfl, rfl, rfl⟩
    · rintro ⟨rfl, hhash, rfl, rfl, hschema, htarget, hprovider, hdiscovery, hpolicy, hexpires⟩
      cases spec
      simp_all

/-- What is written does not depend on the order of maps. -/
theorem newChangePlanSpec_order (order : List String → List String) (horder : ∀ l, (order l).Perm l) :
    newChangePlanSpec (dr.reordered order horder) d expiresAt = .ok spec ↔
      newChangePlanSpec dr d expiresAt = .ok spec := by
  have hjson : d.canonicalJSON (dr.reordered order horder) = .ok spec.canonicalDocument ↔
      d.canonicalJSON dr = .ok spec.canonicalDocument := by
    rw [canonicalJSON_ok_iff, canonicalJSON_ok_iff]
    rfl
  rw [newChangePlanSpec_iff, newChangePlanSpec_iff, hjson]
  rfl

theorem newChangePlanObject_spec {objectNamespace name : String} {object : ChangePlan}
    (h : newChangePlanObject dr objectNamespace name d expiresAt = .ok object) :
    newChangePlanSpec dr d expiresAt = .ok object.spec.plan := by
  unfold newChangePlanObject at h
  cases hspec : newChangePlanSpec dr d expiresAt with
  | error err => rw [hspec] at h; cases h
  | ok spec =>
    rw [hspec] at h
    cases h
    rfl

theorem newChangePlanObject_of_spec (h : newChangePlanSpec dr d expiresAt = .ok spec)
    (objectNamespace name : String) :
    ∃ object, newChangePlanObject dr objectNamespace name d expiresAt = .ok object ∧ object.spec.plan = spec := by
  unfold newChangePlanObject
  rw [h]
  exact ⟨_, rfl, rfl⟩

end Writing

/-- **An object is accepted if and only if its spec is the one written for the decoded document.** -/
theorem documentFromChangePlan_iff (dr : DocumentRuntime) (unmarshal : List Char → Option Document)
    (object : ChangePlan) (d : Document) :
    documentFromChangePlan dr unmarshal object = .ok d ↔
      unmarshal object.spec.plan.canonicalDocument = some d ∧
        newChangePlanSpec dr d object.spec.plan.expiresAt = .ok object.spec.plan := by
  generalize hspec : object.spec.plan = spec
  unfold documentFromChangePlan
  rw [hspec]
  dsimp only
  constructor
  · intro h
    by_cases hschema : spec.schemaVersion = documentSchemaVersion
    swap
    · rw [if_pos hschema] at h; cases h
    rw [if_neg (not_not.2 hschema)] at h
    cases hdecode : unmarshal spec.canonicalDocument with
    | none => rw [hdecode] at h; cases h
    | some document =>
    cases hjson : document.canonicalJSON dr with
    | error err => rw [hdecode] at h; simp only [hjson, ofDocument] at h; cases h
    | ok text =>
    have hid : document.id dr = .ok (String.ofList (sha256Hex text)) :=
      (id_ok_iff dr document).2 ⟨text, hjson, rfl⟩
    cases hexpected : newChangePlanSpec dr document spec.expiresAt with
    | error err =>
      rw [hdecode] at h
      simp only [hjson, hid, hexpected, ofDocument, bind, Except.bind] at h
      split_ifs at h
    | ok expected =>
      rw [hdecode] at h
      simp only [hjson, hid, hexpected, ofDocument, bind, Except.bind] at h
      -- every comparison came out equal
      split_ifs at h with htext hhash hsummary hoperations
      obtain rfl := Except.ok.inj h
      obtain ⟨-, -, hops, hversions, -⟩ := (newChangePlanSpec_iff dr document).1 hexpected
      simp only [not_or, not_not] at htext hhash hsummary hoperations
      obtain ⟨htarget, hprovider, hdiscovery, hpolicy⟩ := hsummary
      refine ⟨rfl, (newChangePlanSpec_iff dr document).2 ⟨?_, ?_, ?_, ?_, hschema, htarget, hprovider, hdiscovery,
        hpolicy, rfl⟩⟩
      · rw [hjson, htext]
      · rw [← hhash, htext]
      · rw [hops, hoperations.2]
      · rw [hversions, hoperations.1]
  · rintro ⟨hdecode, hwritten⟩
    obtain ⟨hjson, hhash, -, -, hschema, htarget, hprovider, hdiscovery, hpolicy, -⟩ :=
      (newChangePlanSpec_iff dr d).1 hwritten
    have hid : d.id dr = .ok spec.planHash := (id_ok_iff dr d).2 ⟨_, hjson, hhash⟩
    have hsummary : ¬ (spec.targetRef ≠ d.target.name ∨
      spec.providerRevision ≠ d.preconditions.provider.revision ∨
        spec.discoveryGeneration ≠ d.preconditions.discovery.generation ∨
        spec.policyGeneration ≠ d.preconditions.policy.generation) := by
      simp [htarget, hprovider, hdiscovery, hpolicy]
    rw [if_neg (not_not.2 hschema), hdecode]
    simp only [hjson, hid, ofDocument, bind, Except.bind]
    rw [if_neg (by simp), if_neg (by simp), if_neg hsummary, hwritten]
    simp [pure, Except.pure]

/-- **Persisted plans cannot change unnoticed.** A canonical document, one that is decoded from its
own JSON, is read back from the object written for it. Every object that is accepted has the spec
that is written for its document, up to the expiry. And if two accepted objects differ in anything
but the expiry, then their documents differ, and so do their hashes unless the two texts collide. -/
theorem persisted_plan_pinned (dr : DocumentRuntime) (order : List String → List String)
    (horder : ∀ l, (order l).Perm l) (unmarshal : List Char → Option Document) :
    (∀ objectNamespace name d expiresAt object,
      newChangePlanObject dr objectNamespace name d expiresAt = .ok object →
      (∀ text, d.canonicalJSON dr = .ok text → unmarshal text = some d) →
      documentFromChangePlan (dr.reordered order horder) unmarshal object = .ok d) ∧
    (∀ object d, documentFromChangePlan dr unmarshal object = .ok d → ∀ objectNamespace name,
      ∃ written, newChangePlanObject (dr.reordered order horder) objectNamespace name d
        object.spec.plan.expiresAt =
        .ok written ∧ written.spec.plan = object.spec.plan) ∧
    (∀ object d changed d', documentFromChangePlan dr unmarshal object = .ok d →
      documentFromChangePlan (dr.reordered order horder) unmarshal changed = .ok d' →
      { changed.spec.plan with expiresAt := object.spec.plan.expiresAt } ≠ object.spec.plan →
      changed.spec.plan.canonicalDocument ≠ object.spec.plan.canonicalDocument ∧
        ((sha256Hex changed.spec.plan.canonicalDocument = sha256Hex object.spec.plan.canonicalDocument →
            changed.spec.plan.canonicalDocument = object.spec.plan.canonicalDocument) →
          changed.spec.plan.planHash ≠ object.spec.plan.planHash)) := by
  refine ⟨?_, ?_, ?_⟩
  · intro objectNamespace name d expiresAt object hobject hcanonical
    have hspec := newChangePlanObject_spec dr d hobject
    obtain ⟨hjson, -, -, -, -, -, -, -, -, hexpires⟩ := (newChangePlanSpec_iff dr d).1 hspec
    rw [documentFromChangePlan_iff, newChangePlanSpec_order, hexpires]
    exact ⟨hcanonical _ hjson, hspec⟩
  · intro object d haccepted objectNamespace name
    have hspec := ((documentFromChangePlan_iff dr unmarshal object d).1 haccepted).2
    exact newChangePlanObject_of_spec _ d ((newChangePlanSpec_order dr d order horder).2 hspec)
      objectNamespace name
  · intro object d changed d' haccepted hchanged hdiffer
    obtain ⟨hdecode, hspec⟩ := (documentFromChangePlan_iff _ unmarshal object d).1 haccepted
    obtain ⟨hdecode', hspec'⟩ := (documentFromChangePlan_iff _ unmarshal changed d').1 hchanged
    rw [newChangePlanSpec_order] at hspec'
    obtain ⟨-, hhash, hops, hversions, hschema, htarget, hprovider, hdiscovery, hpolicy, -⟩ :=
      (newChangePlanSpec_iff dr d).1 hspec
    obtain ⟨-, hhash', hops', hversions', hschema', htarget', hprovider', hdiscovery', hpolicy', -⟩ :=
      (newChangePlanSpec_iff dr d').1 hspec'
    have hdocuments : changed.spec.plan.canonicalDocument ≠ object.spec.plan.canonicalDocument := by
      -- one document decides every other field
      intro hsame
      rw [hsame, hdecode] at hdecode'
      obtain rfl := Option.some.inj hdecode'
      refine hdiffer ?_
      rw [hops] at hops'
      rw [hversions] at hversions'
      generalize object.spec.plan = spec at *
      generalize changed.spec.plan = spec' at *
      cases spec
      cases spec'
      simp_all
    refine ⟨hdocuments, fun hcollision heq => hdocuments (hcollision ?_)⟩
    rw [hhash, hhash'] at heq
    exact String.ofList_injective heq

/-- A plan that replaces an alias by an address: the create requires the delete of row 5, whose claim is
recorded. -/
def replacingPlan (revision : String) : Document where
  apiVersion := documentAPIVersion
  kind := documentKind
  target := { name := "edge", zone := "example.com" }
  preconditions :=
    { provider := { revision := revision, stable := true, complete := true }
      ownership := [{ claimNamespace := "system", name := "claim-5", uid := "7", resourceVersion := "41"
                      providerID := "5", phase := "Confirmed" }] }
  operations :=
    [{ id := "a", type := "delete", reason := "record-stale"
       current := some ⟨"example.com", "web.example.com", "CNAME", ["old.example.com"], 60, "5", false⟩ },
     { id := "b", type := "create", reason := "record-missing"
       desired := some ⟨"example.com", "web.example.com", "A", ["10.0.0.1"], 60, "", false⟩ }]
  prerequisites := [⟨"b", "a"⟩]

/-- The decoder that knows the JSON of the plan at two revisions, and no other text. -/
def decodeReplacing (text : List Char) : Option Document :=
  [replacingPlan "1", replacingPlan "2"].find? fun d => decide ((d.canonicalCopy .plain).json = text)

theorem decodeReplacing_own {revision : String} (hrevision : revision = "1" ∨ revision = "2") (text : List Char)
    (htext : (replacingPlan revision).canonicalJSON .plain = .ok text) :
    decodeReplacing text = some (replacingPlan revision) := by
  obtain rfl := ((canonicalJSON_ok_iff _ _).1 htext).2
  rcases hrevision with rfl | rfl <;> decide +kernel

theorem replacingPlan_written {revision : String} (hrevision : revision = "1" ∨ revision = "2") :
    ∃ object, newChangePlanObject .plain "system" "edge-plan" (replacingPlan revision) none = .ok object := by
  have hok : (newChangePlanObject .plain "system" "edge-plan" (replacingPlan revision) none).isOk = true := by
    rcases hrevision with rfl | rfl <;> decide +kernel
  cases hobject : newChangePlanObject .plain "system" "edge-plan" (replacingPlan revision) none with
  | error err => rw [hobject] at hok; cases hok
  | ok object => exact ⟨object, rfl⟩

/-- **The plan at two revisions**: both objects are read back, the first is the one that its document is
written as, and they differ in the text. -/
theorem persisted_plan_pinned_replacing :
    ∃ object changed,
      newChangePlanObject .plain "system" "edge-plan" (replacingPlan "1") none = .ok object ∧
      newChangePlanObject .plain "system" "edge-plan" (replacingPlan "2") none = .ok changed ∧
      documentFromChangePlan (DocumentRuntime.plain.reordered List.reverse List.reverse_perm)
        decodeReplacing object =
        .ok (replacingPlan "1") ∧
      (∃ written, newChangePlanObject .plain "other" "name"
        (replacingPlan "1") object.spec.plan.expiresAt = .ok written ∧
        written.spec.plan = object.spec.plan) ∧
      changed.spec.plan.canonicalDocument ≠ object.spec.plan.canonicalDocument := by
  obtain ⟨object, hobject⟩ := replacingPlan_written (.inl rfl)
  obtain ⟨changed, hchanged⟩ := replacingPlan_written (.inr rfl)
  have hplain := persisted_plan_pinned .plain id (fun _ => List.Perm.refl _) decodeReplacing
  have hread := hplain.1 _ _ _ _ _ hobject (decodeReplacing_own (.inl rfl))
  have hread' := hplain.1 _ _ _ _ _ hchanged (decodeReplacing_own (.inr rfl))
  have hdiffer : { changed.spec.plan with expiresAt := object.spec.plan.expiresAt } ≠ object.spec.plan := by
    intro hsame
    obtain ⟨-, -, -, -, -, -, hrevision, -⟩ :=
      (newChangePlanSpec_iff _ _).1 (newChangePlanObject_spec _ _ hobject)
    obtain ⟨-, -, -, -, -, -, hrevision', -⟩ :=
      (newChangePlanSpec_iff _ _).1 (newChangePlanObject_spec _ _ hchanged)
    have hrevisions := congrArg ChangePlanSpec.providerRevision hsame
    dsimp only at hrevisions
    rw [hrevision, hrevision'] at hrevisions
    exact absurd hrevisions (by decide)
  exact ⟨object, changed, hobject, hchanged,
    (persisted_plan_pinned .plain List.reverse List.reverse_perm decodeReplacing).1 _ _ _ _ _ hobject
      (decodeReplacing_own (.inl rfl)),
    hplain.2.1 _ _ hread "other" "name", (hplain.2.2 _ _ _ _ hread hread' hdiffer).1⟩

end FortigateDns
