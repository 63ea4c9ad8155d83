import FortigateDns.Proof.Canonical
import FortigateDns.Proof.ValidDocument

/-!
# The dependency executor always finishes

`Execute` sweeps over the pending operations until none is left. The prerequisites of a document
that was accepted are well-founded, so in every sweep an operation without pending prerequisites
is decided, whatever revalidator and applier answer.
-/

namespace FortigateDns

open Go List

variable {op : SanitizedOperation} {st : Execution} {before after pending : List SanitizedOperation}

section Readiness

variable {results : GoMap ApplyOutcome} {dependencies : List String}

theorem dependencyState_blocked (h : (dependencyState results dependencies).2 = true) :
    ∃ b ∈ dependencies, ∃ r, results.lookup b = some r ∧ r ≠ .succeeded := by
  induction dependencies with
  | nil => cases h
  | cons b rest ih =>
    cases hb : results.lookup b with
    | none => simp [dependencyState, hb] at h
    | some r =>
      by_cases hr : r = .succeeded
      · simp only [dependencyState, hb, hr, ne_eq, not_true_eq_false, if_false] at h
        obtain ⟨c, hc, hcr⟩ := ih h
        exact ⟨c, mem_cons_of_mem _ hc, hcr⟩
      · exact ⟨b, mem_cons_self, r, hb, hr⟩

theorem dependencyState_ready (h : (dependencyState results dependencies).1 = true) :
    ∀ b ∈ dependencies, results.lookup b = some .succeeded := by
  induction dependencies with
  | nil => simp
  | cons b rest ih =>
    cases hb : results.lookup b with
    | none => simp [dependencyState, hb] at h
    | some r =>
      by_cases hr : r = .succeeded
      · subst hr
        simp only [dependencyState, hb, ne_eq, not_true_eq_false, if_false] at h
        exact forall_mem_cons.2 ⟨hb, ih h⟩
      · simp [dependencyState, hb, hr] at h

theorem dependencyState_waiting (hready : (dependencyState results dependencies).1 = false)
    (hblocked : (dependencyState results dependencies).2 = false) :
    ∃ b ∈ dependencies, results.lookup b = none := by
  induction dependencies with
  | nil => cases hready
  | cons b rest ih =>
    cases hb : results.lookup b with
    | none => exact ⟨b, mem_cons_self, hb⟩
    | some r =>
      by_cases hr : r = .succeeded
      · simp only [dependencyState, hb, hr, ne_eq, not_true_eq_false, if_false] at hready hblocked
        obtain ⟨c, hc, hcr⟩ := ih hready hblocked
        exact ⟨c, mem_cons_of_mem _ hc, hcr⟩
      · simp [dependencyState, hb, hr] at hblocked

end Readiness

section

variable (ops : List SanitizedOperation) (edges : List PrerequisiteEdge)

/-- **The calls in order**: an operation is requested right after it was revalidated, after all its
prerequisites succeeded, and for the first time. -/
inductive OrderedLog : List ExecutorEvent → Prop
  | initial : OrderedLog [.revalidated none true]
  | refused {log : List ExecutorEvent} {op : SanitizedOperation} (h : OrderedLog log) :
    OrderedLog (log ++ [.revalidated (some op) false])
  | applied {log : List ExecutorEvent} {op : SanitizedOperation} {ok : Bool} (h : OrderedLog log) (hop : op ∈ ops)
    (hready : ∀ b, Prerequisite edges b op.id → ∃ op' ∈ ops, op'.id = b ∧ .applied op' true ∈ log)
    (hfirst : ∀ ok', .applied op ok' ∉ log) :
    OrderedLog (log ++ [.revalidated (some op) true, .applied op ok])

variable {ops edges}

/-- A position in an extended list is one in the list, or the new one. -/
theorem append_cons_eq_concat {α : Type} {pre post l : List α} {a b : α} (h : pre ++ a :: post = l ++ [b]) :
    (pre = l ∧ a = b) ∨ ∃ post', pre ++ a :: post' = l := by
  rcases eq_nil_or_concat post with rfl | ⟨post', c, rfl⟩
  · obtain ⟨hl, hab⟩ := append_inj' h rfl
    exact Or.inl ⟨hl, singleton_inj.1 hab⟩
  · refine Or.inr ⟨post', ?_⟩
    have hsplit : (pre ++ a :: post') ++ [c] = l ++ [b] := by
      rw [← h]
      simp
    exact (append_inj' hsplit rfl).1

/-- What an ordered log says of each request in it. -/
theorem OrderedLog.request {log : List ExecutorEvent} (h : OrderedLog ops edges log)
    {pre post : List ExecutorEvent} {ok : Bool} (hlog : log = pre ++ .applied op ok :: post) :
    op ∈ ops ∧ (∃ earlier, pre = earlier ++ [.revalidated (some op) true]) ∧
      (∀ b, Prerequisite edges b op.id → ∃ op' ∈ ops, op'.id = b ∧ .applied op' true ∈ pre) ∧
      ∀ ok', .applied op ok' ∉ pre := by
  induction h generalizing post with
  | initial =>
    cases pre with
    | nil => simp at hlog
    | cons e pre => simp at hlog
  | refused _ ih =>
    rcases append_cons_eq_concat hlog.symm with ⟨-, heq⟩ | ⟨post', heq⟩
    · cases heq
    · exact ih heq.symm
  | @applied log op' ok' _ hop hready hfirst ih =>
    rw [show log ++ [.revalidated (some op') true, .applied op' ok'] =
      (log ++ [.revalidated (some op') true]) ++ [.applied op' ok'] by simp] at hlog
    rcases append_cons_eq_concat hlog.symm with ⟨rfl, heq⟩ | ⟨post', heq⟩
    · cases heq
      refine ⟨hop, ⟨log, rfl⟩, fun b hb => ?_, fun ok'' hmem => ?_⟩
      · obtain ⟨c, hc, hid, hmem⟩ := hready b hb
        exact ⟨c, hc, hid, mem_append_left _ hmem⟩
      · rcases mem_append.1 hmem with hmem | hmem
        · exact hfirst ok'' hmem
        · simp at hmem
    · rcases append_cons_eq_concat heq with ⟨-, heq⟩ | ⟨post'', heq⟩
      · cases heq
      · exact ih heq.symm

variable (ops edges)

/-- What is known of an operation with an outcome. -/
def Decided (results : GoMap ApplyOutcome) (id : String) (result : ApplyOutcome) : Prop :=
  (result = .blocked ∧ ∃ b, Prerequisite edges b id ∧ ∃ r, results.lookup b = some r ∧ r ≠ .succeeded) ∨
    (result ≠ .blocked ∧ ∀ b, Prerequisite edges b id → results.lookup b = some .succeeded)

/-- **The invariant of the loops**: `remaining` are the operations without an outcome. -/
structure Progressing (remaining : List SanitizedOperation) (st : Execution) : Prop where
  ids : (st.outcomes.map OperationOutcome.operationID ++ remaining.map SanitizedOperation.id).Perm
    (ops.map SanitizedOperation.id)
  subset : ∀ op ∈ remaining, op ∈ ops
  results : ∀ id r, st.results.lookup id = some r ↔ ∃ o ∈ st.outcomes, o.operationID = id ∧ o.result = r
  decided : ∀ o ∈ st.outcomes, Decided edges st.results o.operationID o.result
  log : OrderedLog ops edges st.log
  succeeded : ∀ id, st.results.lookup id = some .succeeded ↔ ∃ op ∈ ops, op.id = id ∧ .applied op true ∈ st.log
  requested : ∀ op ok, .applied op ok ∈ st.log → (st.results.lookup op.id).isSome = true

variable {ops edges}

/-- An operation that remains has no result. -/
theorem Progressing.lookup_remaining {remaining : List SanitizedOperation}
    (h : Progressing ops edges remaining st) (hnodup : (ops.map SanitizedOperation.id).Nodup)
    (hop : op ∈ remaining) : st.results.lookup op.id = none := by
  cases hlook : st.results.lookup op.id with
  | none => rfl
  | some r =>
    obtain ⟨o, ho, hid, -⟩ := (h.results op.id r).1 hlook
    have hdisjoint := (nodup_append.1 (h.ids.nodup_iff.2 hnodup)).2.2
    exact absurd hid (hdisjoint _ (mem_map_of_mem ho) _ (mem_map_of_mem hop))

/-- An operation is requested by its own events only, and succeeds with its request. -/
structure EventsOf (op : SanitizedOperation) (events : List ExecutorEvent) (result : ApplyOutcome) : Prop where
  own : ∀ op' ok, .applied op' ok ∈ events → op' = op
  succeeded : result = .succeeded ↔ .applied op true ∈ events

section Record

variable {events : List ExecutorEvent} {result : ApplyOutcome}

/-- A first result of an operation does not undo what was decided. -/
theorem Decided.set {results : GoMap ApplyOutcome} {id id' : String} {r : ApplyOutcome}
    (hnone : results.lookup id = none) (h : Decided edges results id' r) :
    Decided edges (results.set id result) id' r := by
  -- a prerequisite that has a result is another operation
  have hkeep : ∀ b r, results.lookup b = some r → (results.set id result).lookup b = some r := by
    intro b r hb
    rw [GoMap.lookup_set, if_neg, hb]
    rintro rfl
    rw [hnone] at hb
    cases hb
  rcases h with ⟨hr, b, hb, r', hlook, hne⟩ | ⟨hr, hall⟩
  · exact Or.inl ⟨hr, b, hb, r', hkeep b r' hlook, hne⟩
  · exact Or.inr ⟨hr, fun b hb => hkeep b _ (hall b hb)⟩

variable (h : Progressing ops edges (before ++ op :: after) st) (hnone : st.results.lookup op.id = none)
include h hnone

/-- The results stay those of the outcomes. -/
theorem Progressing.record_results (reason id : String) (r : ApplyOutcome) :
    (st.results.set op.id result).lookup id = some r ↔
      ∃ o ∈ st.outcomes ++ [⟨op.id, result, reason⟩], o.operationID = id ∧ o.result = r := by
  rw [GoMap.lookup_set]
  by_cases hid : id = op.id
  · subst hid
    rw [if_pos rfl]
    constructor
    · rintro ⟨⟩
      exact ⟨_, mem_append_right _ mem_cons_self, rfl, rfl⟩
    · rintro ⟨o, ho, hoid, rfl⟩
      rcases mem_append.1 ho with ho | ho
      · have := (h.results _ o.result).2 ⟨o, ho, hoid, rfl⟩
        rw [hnone] at this
        cases this
      · rw [mem_singleton.1 ho]
  · rw [if_neg hid, h.results]
    constructor
    · rintro ⟨o, ho, hoid⟩
      exact ⟨o, mem_append_left _ ho, hoid⟩
    · rintro ⟨o, ho, hoid, hr⟩
      rcases mem_append.1 ho with ho | ho
      · exact ⟨o, ho, hoid, hr⟩
      · rw [mem_singleton.1 ho] at hoid
        exact absurd hoid.symm hid

/-- The operations that succeeded stay those whose request did. -/
theorem Progressing.record_succeeded (hevents : EventsOf op events result) (id : String) :
    (st.results.set op.id result).lookup id = some .succeeded ↔
      ∃ op' ∈ ops, op'.id = id ∧ .applied op' true ∈ st.log ++ events := by
  rw [GoMap.lookup_set]
  by_cases hid : id = op.id
  · subst hid
    rw [if_pos rfl, Option.some.injEq, hevents.succeeded]
    constructor
    · intro hreq
      exact ⟨op, h.subset op (by simp), rfl, mem_append_right _ hreq⟩
    · rintro ⟨op', -, hid', hreq⟩
      rcases mem_append.1 hreq with hreq | hreq
      · -- a request before now would have left a result
        have := h.requested op' true hreq
        rw [hid', hnone] at this
        cases this
      · rwa [hevents.own op' true hreq] at hreq
  · rw [if_neg hid, h.succeeded]
    constructor
    · rintro ⟨op', hop', hid', hreq⟩
      exact ⟨op', hop', hid', mem_append_left _ hreq⟩
    · rintro ⟨op', hop', hid', hreq⟩
      rcases mem_append.1 hreq with hreq | hreq
      · exact ⟨op', hop', hid', hreq⟩
      · rw [hevents.own op' true hreq] at hid'
        exact absurd hid'.symm hid

omit hnone in
/-- What was requested has a result. -/
theorem Progressing.record_requested (hevents : EventsOf op events result) {op' : SanitizedOperation} {ok : Bool}
    (hreq : .applied op' ok ∈ st.log ++ events) :
    ((st.results.set op.id result).lookup op'.id).isSome = true := by
  rw [GoMap.lookup_set]
  split
  · rfl
  · rename_i hid
    rcases mem_append.1 hreq with hreq | hreq
    · exact h.requested op' ok hreq
    · rw [hevents.own op' ok hreq] at hid
      exact absurd rfl hid

omit hnone in
/-- **The step that decides an operation.** Its identifier moves from the remaining operations to the outcomes. -/
theorem Progressing.record (hnodup : (ops.map SanitizedOperation.id).Nodup) (reason : String)
    (hdecided : Decided edges st.results op.id result) (hlog : OrderedLog ops edges (st.log ++ events))
    (hevents : EventsOf op events result) :
    Progressing ops edges (before ++ after) ({ st with log := st.log ++ events }.record op.id result reason) := by
  have hnone : st.results.lookup op.id = none := h.lookup_remaining hnodup (by simp)
  refine ⟨?_, fun o ho => h.subset o ?_, h.record_results hnone reason, fun o ho => ?_, hlog,
    h.record_succeeded hnone hevents, fun _ _ => h.record_requested hevents⟩
  · refine List.Perm.trans ?_ h.ids
    simp only [Execution.record, map_append, map_cons, map_nil, append_assoc]
    refine List.Perm.append_left _ ?_
    rw [singleton_append]
    exact perm_middle.symm
  · rcases mem_append.1 ho with ho | ho
    · exact mem_append_left _ ho
    · exact mem_append_right _ (mem_cons_of_mem _ ho)
  · rcases mem_append.1 ho with ho | ho
    · exact (h.decided o ho).set hnone
    · rw [mem_singleton.1 ho]
      exact hdecided.set hnone

end Record

/-- What is done with an operation that is ready: refused by the revalidator, or requested. -/
theorem executeReady_cases (x : Executor) (op : SanitizedOperation) (st : Execution) :
    ∃ events result reason,
      executeReady x op st = { st with log := st.log ++ events }.record op.id result reason ∧
        EventsOf op events result ∧
        result ≠ .blocked ∧ (events = [.revalidated (some op) false] ∨
          ∃ ok, events = [.revalidated (some op) true, .applied op ok]) := by
  unfold executeReady applyReady
  dsimp only
  cases hvalid : x.revalidate st.log (some op) with
  | false => exact ⟨_, _, _, rfl, ⟨by simp, by simp⟩, by decide, Or.inl rfl⟩
  | true =>
    rw [if_pos rfl, append_assoc]
    cases hok : x.applyOperation (st.log ++ [.revalidated (some op) true]) op with
    | false => exact ⟨_, _, _, rfl, ⟨by simp, by simp⟩, by decide, Or.inr ⟨false, rfl⟩⟩
    | true => exact ⟨_, _, _, rfl, ⟨by simp, by simp⟩, by decide, Or.inr ⟨true, rfl⟩⟩

theorem Progressing.executeReady (h : Progressing ops edges (before ++ op :: after) st)
    (hnodup : (ops.map SanitizedOperation.id).Nodup) (x : Executor)
    (hready : ∀ b, Prerequisite edges b op.id → st.results.lookup b = some .succeeded) :
    Progressing ops edges (before ++ after) (executeReady x op st) := by
  obtain ⟨events, result, reason, heq, hevents, hresult, hcases⟩ := executeReady_cases x op st
  have hmem : op ∈ before ++ op :: after := by simp
  rw [heq]
  refine h.record hnodup reason (Or.inr ⟨hresult, hready⟩) ?_ hevents
  rcases hcases with rfl | ⟨ok, rfl⟩
  · exact .refused h.log
  · refine .applied h.log (h.subset op hmem) (fun b hb => (h.succeeded b).1 (hready b hb)) fun ok' hreq => ?_
    have := h.requested op ok' hreq
    rw [h.lookup_remaining hnodup hmem] at this
    cases this

theorem Progressing.blocked (h : Progressing ops edges (before ++ op :: after) st)
    (hnodup : (ops.map SanitizedOperation.id).Nodup)
    (hblocked : ∃ b, Prerequisite edges b op.id ∧ ∃ r, st.results.lookup b = some r ∧ r ≠ .succeeded) :
    Progressing ops edges (before ++ after) (st.record op.id .blocked "prerequisite-failed") := by
  have hevents : EventsOf op [] .blocked := ⟨by simp, by simp⟩
  have hlog : OrderedLog ops edges (st.log ++ []) := by rw [append_nil]; exact h.log
  have := h.record hnodup "prerequisite-failed" (Or.inl ⟨rfl, hblocked⟩) hlog hevents
  rwa [append_nil] at this

variable {x : Executor} (hnodup : (ops.map SanitizedOperation.id).Nodup)
  (hctx : ∀ log, x.canceled log = false)

/-- What a sweep over `pending` makes of `s`. -/
structure Swept (ops : List SanitizedOperation) (edges : List PrerequisiteEdge)
    (pending : List SanitizedOperation) (s t : Sweep) : Prop where
  inv : Progressing ops edges t.next t.st
  mono : s.progress = true → t.progress = true
  stuck : t.progress = false → t.next = s.next ++ pending ∧ t.st = s.st ∧
    ∀ op ∈ pending, ∃ b, Prerequisite edges b op.id ∧ s.st.results.lookup b = none

include hnodup hctx in
/-- **A sweep** keeps the invariant; if it gets nowhere, every pending operation waits for another. -/
theorem sweep_progressing {s : Sweep} (h : Progressing ops edges (s.next ++ pending) s.st) :
    ∃ t, sweep x (dependenciesOf edges) pending s = .ok t ∧ Swept ops edges pending s t := by
  induction pending generalizing s with
  | nil =>
    rw [append_nil] at h
    exact ⟨s, rfl, h, id, fun _ => ⟨by simp, rfl, by simp⟩⟩
  | cons op rest ih =>
    have hdep : ∀ b, b ∈ dependenciesOf edges op.id ↔ Prerequisite edges b op.id :=
      fun b => mem_dependenciesOf edges
    -- whatever decides `op` is progress
    have hdone : ∀ st, Progressing ops edges (s.next ++ rest) st →
        ∃ t, sweep x (dependenciesOf edges) rest { s with st := st, progress := true } = .ok t ∧
          Swept ops edges (op :: rest) s t := by
      intro st hst
      obtain ⟨t, ht, hswept⟩ := ih (s := { s with st := st, progress := true }) hst
      have hprogress : t.progress = true := hswept.mono rfl
      exact ⟨t, ht, hswept.inv, fun _ => hprogress, fun hf => absurd (hf.symm.trans hprogress) (by decide)⟩
    unfold sweep
    dsimp only
    cases hblocked : (dependencyState s.st.results (dependenciesOf edges op.id)).2 with
    | true =>
      rw [if_pos rfl]
      refine hdone _ (h.blocked hnodup ?_)
      obtain ⟨b, hb, r, hr, hne⟩ := dependencyState_blocked hblocked
      exact ⟨b, (hdep b).1 hb, r, hr, hne⟩
    | false =>
      rw [if_neg (by decide)]
      cases hready : (dependencyState s.st.results (dependenciesOf edges op.id)).1 with
      | true =>
        rw [if_neg (by decide), hctx, if_neg (by decide)]
        exact hdone _ (h.executeReady hnodup x fun b hb => dependencyState_ready hready b ((hdep b).2 hb))
      | false =>
        rw [if_pos (by decide)]
        have hmoved : Progressing ops edges ((s.next ++ [op]) ++ rest) s.st := by
          rw [append_assoc]
          exact h
        obtain ⟨t, ht, hswept⟩ := ih (s := { s with next := s.next ++ [op] }) hmoved
        refine ⟨t, ht, hswept.inv, hswept.mono, fun hf => ?_⟩
        obtain ⟨hnext, hst, hwait⟩ := hswept.stuck hf
        refine ⟨by rw [hnext, append_assoc]; rfl, hst, forall_mem_cons.2 ⟨?_, hwait⟩⟩
        obtain ⟨b, hb, hnone⟩ := dependencyState_waiting hready hblocked
        exact ⟨b, (hdep b).1 hb, hnone⟩

/-- **Not every pending operation can wait for another**: a minimal one waits for none. -/
theorem Progressing.not_stuck (h : Progressing ops edges pending st) (hwf : WellFounded (Prerequisite edges))
    (hedges : ∀ e ∈ edges, e.requiresOperationID ∈ ops.map SanitizedOperation.id) (hne : pending ≠ [])
    (hwait : ∀ op ∈ pending, ∃ b, Prerequisite edges b op.id ∧ st.results.lookup b = none) : False := by
  obtain ⟨first, hfirst⟩ := exists_mem_of_ne_nil _ hne
  obtain ⟨id, hid, hmin⟩ := hwf.has_min {id | id ∈ pending.map SanitizedOperation.id}
    ⟨first.id, mem_map_of_mem hfirst⟩
  obtain ⟨op, hop, rfl⟩ := mem_map.1 hid
  obtain ⟨b, hb, hnone⟩ := hwait op hop
  refine hmin b ?_ hb
  -- the prerequisite is an operation without an outcome
  obtain ⟨e, he, -, rfl⟩ := hb
  have hmem := h.ids.mem_iff.2 (hedges e he)
  rcases mem_append.1 hmem with hmem | hmem
  · obtain ⟨o, ho, heq⟩ := mem_map.1 hmem
    have := (h.results _ o.result).2 ⟨o, ho, heq, rfl⟩
    rw [hnone] at this
    cases this
  · exact hmem

include hnodup hctx in
/-- **The loop ends with every operation decided.** -/
theorem executeLoop_done (hwf : WellFounded (Prerequisite edges))
    (hedges : ∀ e ∈ edges, e.requiresOperationID ∈ ops.map SanitizedOperation.id)
    (h : Progressing ops edges pending st) :
    ∃ st', executeLoop x (dependenciesOf edges) pending st = (st', none) ∧ Progressing ops edges [] st' := by
  -- by the number of pending operations, which every sweep with progress lowers
  induction hn : pending.length using Nat.strong_induction_on generalizing pending st with
  | _ n ih =>
    rw [executeLoop]
    by_cases hne : pending = []
    · subst hne
      exact ⟨st, by rw [if_pos rfl], h⟩
    · rw [if_neg hne]
      have hstart : Progressing ops edges (({ st := st } : Sweep).next ++ pending) ({ st := st } : Sweep).st := h
      obtain ⟨t, ht, hswept⟩ := sweep_progressing hnodup hctx hstart
      split
      case h_1 err hsweep =>
        rw [ht] at hsweep
        cases hsweep
      case h_2 t' hsweep =>
        rw [ht] at hsweep
        cases hsweep
        cases hprogress : t.progress with
        | true =>
          rw [dif_pos rfl]
          have hless := (sweep_next_length ht).2 rfl hprogress
          refine ih t.next.length ?_ hswept.inv rfl
          rw [← hn]
          simpa using hless
        | false =>
          obtain ⟨-, -, hwait⟩ := hswept.stuck hprogress
          exact absurd hwait fun hwait => h.not_stuck hwf hedges hne hwait

end

/-- **What a run of the executor leaves behind.** -/
structure Executed (document : Document) (st : Execution) : Prop where
  complete : (st.outcomes.map OperationOutcome.operationID).Perm (document.operations.map SanitizedOperation.id)
  sorted : (st.outcomes.map OperationOutcome.operationID).Pairwise (· < ·)
  request : ∀ pre op ok post, st.log = pre ++ .applied op ok :: post →
    op ∈ document.operations ∧ (∃ earlier, pre = earlier ++ [.revalidated (some op) true]) ∧
      (∀ b, Prerequisite document.prerequisites b op.id →
        ∃ op' ∈ document.operations, op'.id = b ∧ .applied op' true ∈ pre) ∧
      ∀ ok', .applied op ok' ∉ pre
  succeeded : ∀ o ∈ st.outcomes, o.result = .succeeded ↔
    ∃ op ∈ document.operations, op.id = o.operationID ∧ .applied op true ∈ st.log
  blocked : ∀ o ∈ st.outcomes, o.result = .blocked ↔
    ∃ b, Prerequisite document.prerequisites b o.operationID ∧
      ∃ o' ∈ st.outcomes, o'.operationID = b ∧ o'.result ≠ .succeeded

theorem Progressing.executed {rt : DocumentRuntime} {d : Document}
    (h : Progressing d.operations d.prerequisites [] st) (hvalid : AcceptableDocument d) :
    Executed d { st with outcomes := rt.sortBy OperationOutcome.operationID st.outcomes } := by
  have hperm := sortBy_perm rt OperationOutcome.operationID st.outcomes
  have hids : (st.outcomes.map OperationOutcome.operationID).Perm (d.operations.map SanitizedOperation.id) := by
    have := h.ids
    rwa [map_nil, append_nil] at this
  have hcomplete := (hperm.map OperationOutcome.operationID).trans hids
  have hsorted : ((rt.sortBy OperationOutcome.operationID st.outcomes).map OperationOutcome.operationID).Pairwise
      (· < ·) := by
    have hle := pairwise_map.2 (sortBy_sorted rt OperationOutcome.operationID st.outcomes)
    have hne := hcomplete.nodup_iff.2 hvalid.ids
    exact hle.imp₂ (fun _ _ hle hne => lt_of_le_of_ne hle hne) hne
  -- the result of an operation is the one of its only outcome
  have hunique : ∀ o ∈ st.outcomes, ∀ r, st.results.lookup o.operationID = some r → o.result = r := by
    intro o ho r hr
    have hown := (h.results o.operationID o.result).2 ⟨o, ho, rfl, rfl⟩
    rw [hown] at hr
    exact Option.some.inj hr
  refine ⟨hcomplete, hsorted, fun pre op ok post hlog => h.log.request hlog, fun o ho => ?_, fun o ho => ?_⟩
  · have ho := hperm.mem_iff.1 ho
    rw [← h.succeeded]
    exact ⟨fun hr => (h.results _ _).2 ⟨o, ho, rfl, hr⟩, fun hr => hunique o ho _ hr⟩
  · have ho := hperm.mem_iff.1 ho
    constructor
    · intro hblocked
      rcases h.decided o ho with ⟨-, b, hb, r, hlook, hr⟩ | ⟨hne, -⟩
      · obtain ⟨o', ho', hid, hres⟩ := (h.results b r).1 hlook
        exact ⟨b, hb, o', hperm.mem_iff.2 ho', hid, hres ▸ hr⟩
      · exact absurd hblocked hne
    · rintro ⟨b, hb, o', ho', hid, hr⟩
      rcases h.decided o ho with ⟨hblocked, -⟩ | ⟨-, hall⟩
      · exact hblocked
      · have := hall b hb
        rw [← hid] at this
        exact absurd (hunique o' (hperm.mem_iff.1 ho') _ this) hr

/-- **The executor finishes every document it accepts**, whatever revalidator and applier answer after the
initial revalidation: no error, one outcome for each operation, sorted, every request right after a
revalidation, for the first time and after all prerequisites succeeded, and blocked exactly the operations
with a direct prerequisite that did not succeed. -/
theorem execute_total (rt : DocumentRuntime) (x : Executor) (d : Document)
    (haccepted : (d.canonicalCopy rt).validate rt = .ok ()) (hinitial : x.revalidate [] none = true)
    (hctx : ∀ log, x.canceled log = false) :
    (execute x rt d).2 = none ∧ Executed (d.canonicalCopy rt) (execute x rt d).1 := by
  have hvalid := (validateDocument_iff rt _).1 haccepted
  have hperm := sortBy_perm rt SanitizedOperation.id (d.canonicalCopy rt).operations
  have hstart : Progressing (d.canonicalCopy rt).operations (d.canonicalCopy rt).prerequisites
      (rt.sortBy SanitizedOperation.id (d.canonicalCopy rt).operations) { log := [.revalidated none true] } := by
    refine ⟨?_, fun op hop => hperm.mem_iff.1 hop, by simp, by simp, .initial, by simp, by simp⟩
    simpa using hperm.map SanitizedOperation.id
  obtain ⟨st, hloop, hst⟩ := executeLoop_done hvalid.ids hctx hvalid.acyclic
    (fun e he => (hvalid.edges e he).2.1) hstart
  have hrun : execute x rt d = ({ st with outcomes := rt.sortBy OperationOutcome.operationID st.outcomes },
    none) := by
    unfold execute
    dsimp only
    rw [haccepted, hinitial]
    dsimp only
    rw [if_neg (by decide), hloop]
  rw [hrun]
  exact ⟨rfl, hst.executed hvalid⟩

/-- Two operations, the second of which needs the first. -/
def chainedPlan : Document where
  apiVersion := documentAPIVersion
  kind := documentKind
  target := { name := "edge", zone := "example.com" }
  preconditions := {}
  operations := [{ id := "b", type := "delete", reason := "record-stale" },
    { id := "a", type := "create", reason := "" }]
  prerequisites := [⟨"b", "a"⟩]

/-- An executor all of whose requests fail. -/
def failingExecutor : Executor where
  revalidate _ _ := true
  applyOperation _ _ := false
  canceled _ := false

theorem execute_total_failing : (execute failingExecutor .plain chainedPlan).2 = none ∧
    Executed (chainedPlan.canonicalCopy .plain) (execute failingExecutor .plain chainedPlan).1 :=
  execute_total .plain failingExecutor chainedPlan (by decide +kernel) rfl fun _ => rfl

/-- Two operations whose IDs differ in a blank. -/
def paddedPlan : Document :=
  { chainedPlan with
    operations := [{ id := "a", type := "create", reason := "" }, { id := "a ", type := "create", reason := "" }]
    prerequisites := [] }

/-- **A document that passes validation may be refused**: the executor validates the canonical copy, in which the
two IDs are one. -/
theorem execute_refuses_padded : paddedPlan.validate .plain = .ok () ∧ failingExecutor.revalidate [] none = true ∧
    (∀ log, failingExecutor.canceled log = false) ∧
    (execute failingExecutor .plain paddedPlan).2 = some (.invalidDocument (.duplicateOperationID "a")) :=
  ⟨by decide +kernel, rfl, fun _ => rfl, by decide +kernel⟩

end FortigateDns
