import FortigateDns.Proof.Dependencies

/-!
# What `Validate` accepts

`Validate` goes through a document in the order of its lists and stops at the first fault. What
it accepts has nothing to do with these orders, nor with that of the map it searches for cycles.
-/

namespace FortigateDns

open Go List

/-- **The documents that `Validate` accepts.** -/
structure AcceptableDocument (d : Document) : Prop where
  apiVersion : d.apiVersion = documentAPIVersion
  kind : d.kind = documentKind
  name : trimSpace d.target.name ≠ ""
  zone : trimSpace d.target.zone ≠ ""
  operations : ∀ op ∈ d.operations, trimSpace op.id ≠ "" ∧ supportedOperationType op.type = true
  ids : (d.operations.map SanitizedOperation.id).Nodup
  edges : ∀ e ∈ d.prerequisites, e.operationID ∈ d.operations.map SanitizedOperation.id ∧
    e.requiresOperationID ∈ d.operations.map SanitizedOperation.id ∧ e.operationID ≠ e.requiresOperationID
  acyclic : WellFounded (Prerequisite d.prerequisites)
  decisions : ∀ decision ∈ d.safetyDecisions, ∀ id ∈ decision.operationIDs,
    id ∈ d.operations.map SanitizedOperation.id

theorem validateOperations_iff {seen : List String} {l : List SanitizedOperation} :
    validateOperations seen l = .ok () ↔
      (∀ op ∈ l, trimSpace op.id ≠ "" ∧ supportedOperationType op.type = true) ∧
        (l.map SanitizedOperation.id).Nodup ∧ ∀ op ∈ l, op.id ∉ seen := by
  induction l generalizing seen with
  | nil => simp [validateOperations]
  | cons op l ih =>
    have hhead : validateOperations seen (op :: l) = .ok () ↔ trimSpace op.id ≠ "" ∧ op.id ∉ seen ∧
        supportedOperationType op.type = true ∧ validateOperations (op.id :: seen) l = .ok () := by
      conv_lhs => unfold validateOperations
      split_ifs with hid hseen htype <;> simp_all only [contains_iff_mem, ne_eq, not_true_eq_false,
        not_false_eq_true, false_and, and_false, true_and, Bool.not_eq_eq_eq_not, Bool.not_true,
          Bool.false_eq_true,
        Bool.not_eq_false]
    rw [hhead, ih, map_cons, nodup_cons, forall_mem_cons, forall_mem_cons]
    constructor
    · rintro ⟨hid, hseen, htype, hall, hnodup, hnot⟩
      refine ⟨⟨⟨hid, htype⟩, hall⟩, ⟨fun hmem => ?_, hnodup⟩, hseen, fun o ho hs => ?_⟩
      · obtain ⟨o, ho, heq⟩ := mem_map.1 hmem
        exact hnot o ho (heq ▸ mem_cons_self)
      · exact hnot o ho (mem_cons_of_mem _ hs)
    · rintro ⟨⟨⟨hid, htype⟩, hall⟩, ⟨hfresh, hnodup⟩, hseen, hnot⟩
      refine ⟨hid, hseen, htype, hall, hnodup, fun o ho hmem => ?_⟩
      rcases mem_cons.1 hmem with heq | hmem
      · exact hfresh (mem_map.2 ⟨o, ho, heq⟩)
      · exact hnot o ho hmem

theorem validatePrerequisites_iff {ids : List String} {edges : List PrerequisiteEdge} :
    validatePrerequisites ids edges = .ok () ↔
      ∀ e ∈ edges, e.operationID ∈ ids ∧ e.requiresOperationID ∈ ids ∧ e.operationID ≠ e.requiresOperationID := by
  induction edges with
  | nil => simp [validatePrerequisites]
  | cons e edges ih =>
    rw [forall_mem_cons, ← ih]
    conv_lhs => unfold validatePrerequisites
    split_ifs with hid hreq hself <;> simp_all

theorem validateDecisions_iff {ids : List String} {decisions : List SafetyDecision} :
    validateDecisions ids decisions = .ok () ↔
      ∀ decision ∈ decisions, ∀ id ∈ decision.operationIDs, id ∈ ids := by
  unfold validateDecisions
  cases hfind : (decisions.flatMap SafetyDecision.operationIDs).find? fun id => !ids.contains id with
  | some id =>
    have hmem := mem_of_find?_eq_some hfind
    have hnot := find?_some hfind
    obtain ⟨decision, hdecision, hid⟩ := mem_flatMap.1 hmem
    simp only [reduceCtorEq, false_iff]
    intro h
    simp [h decision hdecision id hid] at hnot
  | none =>
    rw [find?_eq_none] at hfind
    simp only [true_iff]
    intro decision hdecision id hid
    simpa using hfind id (mem_flatMap.2 ⟨decision, hdecision, hid⟩)

theorem trimSpace_empty : trimSpace "" = "" := rfl

/-- The ends of an edge are identifiers of operations, which are not blank. -/
theorem namedEdges_of_valid {l : List SanitizedOperation} {edges : List PrerequisiteEdge}
    (hops : ∀ op ∈ l, trimSpace op.id ≠ "" ∧ supportedOperationType op.type = true)
    (hedges : ∀ e ∈ edges, e.operationID ∈ l.map SanitizedOperation.id ∧
      e.requiresOperationID ∈ l.map SanitizedOperation.id ∧ e.operationID ≠ e.requiresOperationID) :
    NamedEdges edges := by
  have hid : ∀ id ∈ l.map SanitizedOperation.id, id ≠ "" := by
    rintro id hid rfl
    obtain ⟨op, hop, heq⟩ := mem_map.1 hid
    have hblank := (hops op hop).1
    rw [heq] at hblank
    exact hblank trimSpace_empty
  exact fun e he => ⟨hid _ (hedges e he).1, hid _ (hedges e he).2.1⟩

/-- **`Validate` accepts these documents and no others.** -/
theorem validateDocument_iff (rt : DocumentRuntime) (d : Document) :
    d.validate rt = .ok () ↔ AcceptableDocument d := by
  have hchecks : d.validate rt = .ok () ↔ d.apiVersion = documentAPIVersion ∧ d.kind = documentKind ∧
      trimSpace d.target.name ≠ "" ∧ trimSpace d.target.zone ≠ "" ∧ validateOperations [] d.operations = .ok () ∧
      validatePrerequisites (d.operations.map SanitizedOperation.id) d.prerequisites = .ok () ∧
      dependencyCycle rt d.prerequisites = "" ∧
      validateDecisions (d.operations.map SanitizedOperation.id) d.safetyDecisions = .ok () := by
    unfold Document.validate
    split_ifs with hversion hkind hname hzone
    · simp [hversion]
    · simp [hkind]
    · simp [hname]
    · simp [hzone]
    · cases hops : validateOperations [] d.operations with
      | error e => simp [bind, Except.bind]
      | ok _ =>
        cases hpre : validatePrerequisites (d.operations.map SanitizedOperation.id) d.prerequisites with
        | error e => simp [bind, Except.bind, hpre]
        | ok _ =>
          by_cases hcycle : dependencyCycle rt d.prerequisites = ""
          · simp_all [bind, Except.bind]
          · simp_all [bind, Except.bind, throw, throwThe, MonadExceptOf.throw]
  rw [hchecks, validateOperations_iff, validatePrerequisites_iff, validateDecisions_iff]
  constructor
  · rintro ⟨hversion, hkind, hname, hzone, ⟨hops, hids, -⟩, hedges, hcycle, hdecisions⟩
    have hnamed := namedEdges_of_valid hops hedges
    exact ⟨hversion, hkind, hname, hzone, hops, hids, hedges, (dependencyCycle_eq_empty_iff rt hnamed).1 hcycle,
      hdecisions⟩
  · intro h
    have hnamed := namedEdges_of_valid h.operations h.edges
    exact ⟨h.apiVersion, h.kind, h.name, h.zone, ⟨h.operations, h.ids, fun _ _ => not_mem_nil⟩, h.edges,
      (dependencyCycle_eq_empty_iff rt hnamed).2 h.acyclic, h.decisions⟩

end FortigateDns
