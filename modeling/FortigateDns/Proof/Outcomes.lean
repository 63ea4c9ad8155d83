import FortigateDns.Conc.Trace
import FortigateDns.Spec.Outcomes
import FortigateDns.Spec.Shared

/-!
# Apply results and the runner's validation

Both executors return one outcome for each operation, in order. The runner's validation wants
the outcome of a conflict to be `planning-conflict`, and gets another one when the executor
stops early with conflicts still ahead of it.

* `applyLoop_outcomes`, `loopRun_outcomes`: the outcomes of the two executors.
-/

namespace FortigateDns

open Go Conc List

variable {op : Operation} {rest : List Operation}

/-- The outcomes are those of the operations, in order. -/
def Answers (operations : List Operation) (outcomes : List OperationOutcome) : Prop :=
  List.Forall₂ (fun op outcome => outcome.operationID = op.sanitizedID) operations outcomes

/-- Each outcome is acceptable for its operation. -/
def Acceptable (dryRun : Bool) (operations : List Operation) (outcomes : List OperationOutcome) : Prop :=
  List.Forall₂ (fun op outcome => acceptableOutcome dryRun op outcome = true) operations outcomes

variable {operations : List Operation} {outcomes : List OperationOutcome} {dryRun : Bool}

theorem acceptable_cons {outcome : OperationOutcome} :
    Acceptable dryRun (op :: operations) (outcome :: outcomes) ↔
      acceptableOutcome dryRun op outcome = true ∧ Acceptable dryRun operations outcomes := forall₂_cons

theorem Answers.ids (h : Answers operations outcomes) :
    outcomes.map OperationOutcome.operationID = operations.map Operation.sanitizedID := by
  induction h with
  | nil => rfl
  | cons hid _ ih => rw [map_cons, map_cons, hid, ih]

theorem lookup_expected_foldl (m : GoMap Operation) (op : Operation)
    (hids : (operations.map Operation.sanitizedID).Nodup) (hop : op ∈ operations ∨
      op.sanitizedID ∉ operations.map Operation.sanitizedID ∧ m.lookup op.sanitizedID = some op) :
    (operations.foldl (fun m operation => m.set operation.sanitizedID operation) m).lookup op.sanitizedID =
      some op := by
  induction operations generalizing m with
  | nil =>
    rcases hop with hop | ⟨-, hop⟩
    · simp at hop
    · exact hop
  | cons first rest ih =>
    rw [map_cons, nodup_cons] at hids
    refine ih _ hids.2 ?_
    rcases hop with hop | ⟨hnot, hop⟩
    · rcases mem_cons.1 hop with rfl | hop
      · exact Or.inr ⟨hids.1, GoMap.lookup_set_self _ _ _⟩
      · exact Or.inl hop
    · rw [map_cons, mem_cons, not_or] at hnot
      exact Or.inr ⟨hnot.2, by rw [GoMap.lookup_set_ne _ _ hnot.1]; exact hop⟩

/-- With distinct IDs every operation is found under its own. -/
theorem lookup_expected (hids : (operations.map Operation.sanitizedID).Nodup) (hop : op ∈ operations) :
    (expectedOperations operations).lookup op.sanitizedID = some op :=
  lookup_expected_foldl ∅ op hids (Or.inl hop)

theorem mem_keys_foldl (m : GoMap Operation) (id : String) :
    id ∈ (operations.foldl (fun m operation => m.set operation.sanitizedID operation) m).keys ↔
      id ∈ m.keys ∨ id ∈ operations.map Operation.sanitizedID := by
  induction operations generalizing m with
  | nil => simp
  | cons first rest ih =>
    rw [foldl_cons, ih, ← AList.mem_keys, ← AList.mem_keys, GoMap.set, AList.mem_insert, map_cons,
      mem_cons]
    tauto

theorem mem_expected_keys {id : String} :
    id ∈ (expectedOperations operations).keys ↔ id ∈ operations.map Operation.sanitizedID := by
  unfold expectedOperations
  rw [mem_keys_foldl]
  simp

theorem expected_length (hids : (operations.map Operation.sanitizedID).Nodup) :
    (expectedOperations operations).keys.length = operations.length := by
  have hperm : (expectedOperations operations).keys.Perm (operations.map Operation.sanitizedID) :=
    (perm_ext_iff_of_nodup (AList.keys_nodup _) hids).2 fun _ => mem_expected_keys
  rw [hperm.length_eq, length_map]

/-- The loop over the outcomes of a part of the plan. -/
theorem validateOutcome_foldl {expected : GoMap Operation} (seen : List String) (valid : Bool)
    (hlook : ∀ op ∈ operations, expected.lookup op.sanitizedID = some op)
    (hids : (operations.map Operation.sanitizedID).Nodup) (hseen : ∀ op ∈ operations, op.sanitizedID ∉ seen)
    (h : Answers operations outcomes) :
    ∃ v : Bool, outcomes.foldl (validateOutcome expected dryRun) (seen, valid) =
        ((operations.map Operation.sanitizedID).reverse ++ seen, valid && v) ∧
      (v = true ↔ Acceptable dryRun operations outcomes) := by
  induction h generalizing seen valid with
  | nil => exact ⟨true, by simp, by simp [Acceptable]⟩
  | @cons op outcome ops outs hid _ ih =>
    rw [map_cons, nodup_cons] at hids
    have hstep : validateOutcome expected dryRun (seen, valid) outcome =
        (op.sanitizedID :: seen, valid && acceptableOutcome dryRun op outcome) := by
      unfold validateOutcome
      rw [hid, hlook op mem_cons_self]
      simp [hseen op mem_cons_self]
    have hseen' : ∀ o ∈ ops, o.sanitizedID ∉ op.sanitizedID :: seen := by
      intro o ho
      rw [mem_cons, not_or]
      refine ⟨fun heq => hids.1 ?_, hseen o (mem_cons_of_mem _ ho)⟩
      rw [← heq]
      exact mem_map_of_mem ho
    obtain ⟨v, hfold, hv⟩ := ih (op.sanitizedID :: seen) (valid && acceptableOutcome dryRun op outcome)
      (fun o ho => hlook o (mem_cons_of_mem _ ho)) hids.2 hseen'
    refine ⟨acceptableOutcome dryRun op outcome && v, ?_, ?_⟩
    · rw [foldl_cons, hstep, hfold, Bool.and_assoc]
      simp
    · rw [Bool.and_eq_true, hv]
      exact acceptable_cons.symm

/-- **What the validation accepts**: with distinct IDs, outcomes in the order of the plan are valid
when each is acceptable for its operation. -/
theorem validate_iff (hids : (operations.map Operation.sanitizedID).Nodup) (h : Answers operations outcomes) :
    (validateOperationOutcomes operations outcomes dryRun).2 = true ↔ Acceptable dryRun operations outcomes := by
  unfold validateOperationOutcomes
  obtain ⟨v, hfold, hv⟩ := validateOutcome_foldl []
    ((expectedOperations operations).keys.length == operations.length)
    (fun op hop => lookup_expected hids hop) hids (by simp) h
  have hall : (expectedOperations operations).keys.all
      (fun id => ((operations.map Operation.sanitizedID).reverse ++ []).contains id) = true := by
    rw [all_eq_true]
    intro id hid
    simpa using mem_expected_keys.1 hid
  dsimp only
  rw [hfold, hall, expected_length hids, beq_self_eq_true, Bool.true_and, Bool.and_true]
  exact hv

/-- The outcomes of the operations that an early stop leaves. -/
theorem stop_outcomes (dryRun : Bool) (left : List Operation) {reason : String}
    (hreason : reason ≠ "planning-conflict") :
    Answers left (left.map fun op => ⟨op.sanitizedID, .blocked, reason⟩) ∧
      (Acceptable dryRun left (left.map fun op => ⟨op.sanitizedID, .blocked, reason⟩) ↔
        ∀ op ∈ left, op.type ≠ .conflict) := by
  induction left with
  | nil => exact ⟨.nil, by simp [Acceptable]⟩
  | cons op left ih =>
    refine ⟨.cons rfl ih.1, ?_⟩
    rw [map_cons, acceptable_cons, forall_mem_cons]
    refine and_congr ?_ ih.2
    simp [acceptableOutcome, hreason]

/-- The loop of the client stops at an operation. -/
def stopsAt (dryRun : Bool) (turn : Turn) (operation : Operation) : Bool :=
  turn.canceled || operation.type != .conflict && !dryRun && turn.revoked

/-- No conflict is at or after a stop. -/
def ClearOfStops (dryRun : Bool) (turn : Nat → Turn) (operations : List Operation) : Prop :=
  ∀ i j cut op, i ≤ j → operations[i]? = some cut → operations[j]? = some op → op.type = .conflict →
    stopsAt dryRun (turn i) cut = false

theorem clearOfStops_stop {turn : Nat → Turn} (hstop : stopsAt dryRun (turn 0) op = true) :
    ClearOfStops dryRun turn (op :: rest) ↔ ∀ o ∈ op :: rest, o.type ≠ .conflict := by
  constructor
  · intro h o ho hconflict
    obtain ⟨j, hj⟩ := mem_iff_getElem?.1 ho
    have := h 0 j op o (Nat.zero_le j) rfl hj hconflict
    rw [hstop] at this
    simp at this
  · intro h i j cut o _ _ ho hconflict
    exact absurd hconflict (h o (mem_of_getElem? ho))

theorem clearOfStops_next (turn : Nat → Turn) (hnext : stopsAt dryRun (turn 0) op = false) :
    ClearOfStops dryRun turn (op :: rest) ↔ ClearOfStops dryRun (fun i => turn (i + 1)) rest := by
  constructor
  · intro h i j cut o hij hcut ho hconflict
    exact h (i + 1) (j + 1) cut o (by omega) hcut ho hconflict
  · intro h i j cut o hij hcut ho hconflict
    cases i with
    | zero =>
      obtain rfl : op = cut := Option.some.inj hcut
      exact hnext
    | succ i =>
      cases j with
      | zero => omega
      | succ j => exact h i j cut o (by omega) hcut ho hconflict

/-- One more outcome, for the operation at hand. -/
theorem recordOutcome_outcomes {st : ApplyState} {result : ApplyOutcome} {reason : String} :
    (st.recordOutcome Operation.sanitizedID op result reason).outcomes =
      st.outcomes ++ [⟨op.sanitizedID, result, reason⟩] := rfl

theorem record_outcomes (st : ApplyState) (applied : Applied) (hop : op.type ≠ .conflict) :
    ∃ outcome, (st.record Operation.sanitizedID op applied).outcomes = st.outcomes ++ [outcome] ∧
      outcome.operationID = op.sanitizedID ∧ acceptableOutcome false op outcome = true := by
  unfold ApplyState.record
  cases applied.err with
  | none => exact ⟨_, rfl, rfl, by simp [acceptableOutcome, hop]⟩
  | some err => exact ⟨_, rfl, rfl, by simp [acceptableOutcome, hop]⟩

/-- The outcomes that a loop appends to those of `before`. -/
def Appends (dryRun : Bool) (operations : List Operation) (before after : List OperationOutcome) (clear : Prop) :
    Prop :=
  ∃ outs, after = before ++ outs ∧ Answers operations outs ∧ (Acceptable dryRun operations outs ↔ clear)

/-- An iteration that goes on, before the rest of the loop. -/
theorem Appends.cons {op : Operation} {rest : List Operation} {before after : List OperationOutcome}
    {clear : Prop} (outcome : OperationOutcome) (hid : outcome.operationID = op.sanitizedID)
    (hacc : acceptableOutcome dryRun op outcome = true)
    (hrest : Appends dryRun rest (before ++ [outcome]) after clear) :
    Appends dryRun (op :: rest) before after clear := by
  obtain ⟨outs, hafter, hans, hiff⟩ := hrest
  refine ⟨outcome :: outs, by rw [hafter, append_assoc]; rfl, .cons hid hans, ?_⟩
  rw [acceptable_cons]
  exact ⟨fun h => hiff.1 h.2, fun h => ⟨hacc, hiff.2 h⟩⟩

/-- **The outcomes of the client's loop.** -/
theorem applyLoop_outcomes (cfg : ClientConfig) (dryRun : Bool) (operations : List Operation) (turn : Nat → Turn)
    (index : Nat) (st : ApplyState) :
    Appends dryRun operations st.outcomes
      (applyLoop cfg Operation.sanitizedID dryRun turn index operations st).outcomes
      (ClearOfStops dryRun (fun i => turn (index + i)) operations) := by
  induction operations generalizing index st with
  | nil => exact ⟨[], by simp [applyLoop], .nil, by simp [Acceptable, ClearOfStops]⟩
  | cons op rest ih =>
    have hshift : (fun i => turn (index + (i + 1))) = fun i => turn (index + 1 + i) := by
      funext i
      rw [Nat.add_right_comm, Nat.add_assoc]
    -- an early stop settles all that is left
    have hcut : ∀ err reason, reason ≠ "planning-conflict" → stopsAt dryRun (turn index) op = true →
        Appends dryRun (op :: rest) st.outcomes
          (st.stop Operation.sanitizedID (op :: rest) err reason).outcomes
          (ClearOfStops dryRun (fun i => turn (index + i)) (op :: rest)) := by
      intro err reason hreason hstop
      obtain ⟨hans, hiff⟩ := stop_outcomes dryRun (op :: rest) hreason
      refine ⟨_, rfl, hans, hiff.trans (clearOfStops_stop ?_).symm⟩
      exact hstop
    -- otherwise the rest of the plan decides
    have hnext : ∀ outcome st', stopsAt dryRun (turn index) op = false →
        st'.outcomes = st.outcomes ++ [outcome] → outcome.operationID = op.sanitizedID →
        acceptableOutcome dryRun op outcome = true →
        Appends dryRun (op :: rest) st.outcomes
          (applyLoop cfg Operation.sanitizedID dryRun turn (index + 1) rest st').outcomes
          (ClearOfStops dryRun (fun i => turn (index + i)) (op :: rest)) := by
      intro outcome st' hgo hst hid hacc
      have hrest := ih (index + 1) st'
      rw [hst] at hrest
      rw [clearOfStops_next (fun i => turn (index + i)) hgo, hshift]
      exact hrest.cons outcome hid hacc
    unfold applyLoop
    split
    · rename_i hcanceled
      exact hcut _ _ (by decide) (by simp [stopsAt, hcanceled])
    rename_i hcanceled
    split
    · rename_i htype
      exact hnext _ _ (by simp [stopsAt, hcanceled, htype]) recordOutcome_outcomes rfl
        (by simp [acceptableOutcome])
    rename_i htype
    split
    · rename_i hdry
      exact hnext _ _ (by simp [stopsAt, hcanceled, hdry]) recordOutcome_outcomes rfl
        (by simp [acceptableOutcome, htype])
    rename_i hdry
    split
    · rename_i hrevoked
      exact hcut _ _ (by decide) (by simp [stopsAt, hrevoked, htype, hdry])
    rename_i hrevoked
    have hgo : stopsAt dryRun (turn index) op = false := by simp [stopsAt, hcanceled, hrevoked]
    split
    · exact hnext _ _ hgo recordOutcome_outcomes rfl (by simp [acceptableOutcome, htype])
    · obtain ⟨outcome, hst, hid, hacc⟩ := record_outcomes st (applyOne cfg op (turn index) st.device) htype
      rw [Bool.not_eq_true] at hdry
      exact hnext outcome _ hgo hst hid (by rw [hdry]; exact hacc)

/-- **A run of the shared client's loop**: what its two checks answer for each operation, how the
operation goes, and the operations that an early stop leaves. -/
inductive LoopRun (c : SharedClient) :
    List Operation → SharedClient.LoopState → World → List (Event Call Answer World) → List Operation → Prop
  | done {st : SharedClient.LoopState} {w : World} : LoopRun c [] st w [] []
  | canceled {op : Operation} {rest : List Operation} {st : SharedClient.LoopState} {w w₁ : World}
      {τ : List (Event Call Answer World)} (h : Asked (exec fun _ _ => True) Interference .canceled w true τ w₁) :
      LoopRun c (op :: rest) st w τ (op :: rest)
  | revoked {op : Operation} {rest : List Operation} {st : SharedClient.LoopState} {w w₁ w₂ : World}
      {τ₁ τ₂ : List (Event Call Answer World)}
      (h₁ : Asked (exec fun _ _ => True) Interference .canceled w false τ₁ w₁)
      (h₂ : Asked (exec fun _ _ => True) Interference .revoked w₁ true τ₂ w₂) :
      LoopRun c (op :: rest) st w (τ₁ ++ τ₂) (op :: rest)
  | conflict {op : Operation} {rest left : List Operation} {st : SharedClient.LoopState} {w w₁ w₂ w₃ : World}
      {τ₁ τ₂ τ₃ τ₄ : List (Event Call Answer World)} {r : Except OwnershipError Unit}
      (h₁ : Asked (exec fun _ _ => True) Interference .canceled w false τ₁ w₁)
      (h₂ : Asked (exec fun _ _ => True) Interference .revoked w₁ false τ₂ w₂) (htype : op.type = .conflict)
      (hbody : Run (exec fun _ _ => True) Interference (c.recoverInterruptedClaim op).run w₂ τ₃ (.ret r) w₃)
      (hrest : LoopRun c rest (st.record Operation.sanitizedID op .blocked "planning-conflict") w₃ τ₄ left) :
      LoopRun c (op :: rest) st w (τ₁ ++ (τ₂ ++ (τ₃ ++ τ₄))) left
  | blocked {op : Operation} {rest left : List Operation} {st : SharedClient.LoopState} {w w₁ w₂ : World}
      {τ₁ τ₂ τ₃ : List (Event Call Answer World)}
      (h₁ : Asked (exec fun _ _ => True) Interference .canceled w false τ₁ w₁)
      (h₂ : Asked (exec fun _ _ => True) Interference .revoked w₁ false τ₂ w₂) (htype : op.type ≠ .conflict)
      (hrest : LoopRun c rest (st.record Operation.sanitizedID op .blocked "prerequisite-failed") w₂ τ₃ left) :
      LoopRun c (op :: rest) st w (τ₁ ++ (τ₂ ++ τ₃)) left
  | applied {op : Operation} {rest left : List Operation} {st : SharedClient.LoopState} {w w₁ w₂ w₃ : World}
      {τ₁ τ₂ τ₃ τ₄ : List (Event Call Answer World)} {r : Except OwnershipError Unit}
      (h₁ : Asked (exec fun _ _ => True) Interference .canceled w false τ₁ w₁)
      (h₂ : Asked (exec fun _ _ => True) Interference .revoked w₁ false τ₂ w₂) (htype : op.type ≠ .conflict)
      (hbody : Run (exec fun _ _ => True) Interference (c.applyOne op).run w₂ τ₃ (.ret r) w₃)
      (hrest : LoopRun c rest (st.finish Operation.sanitizedID op r) w₃ τ₄ left) :
      LoopRun c (op :: rest) st w (τ₁ ++ (τ₂ ++ (τ₃ ++ τ₄))) left

variable {c : SharedClient} {w w' : World} {τ : List (Event Call Answer World)}

theorem finish_outcomes (st : SharedClient.LoopState) (r : Except OwnershipError Unit)
    (hop : op.type ≠ .conflict) :
    ∃ outcome, (st.finish Operation.sanitizedID op r).outcomes = st.outcomes ++ [outcome] ∧
      outcome.operationID = op.sanitizedID ∧ acceptableOutcome false op outcome = true := by
  cases r with
  | ok a => exact ⟨_, rfl, rfl, by simp [acceptableOutcome, hop]⟩
  | error err => exact ⟨_, rfl, rfl, by simp [acceptableOutcome, hop]⟩

/-- **The outcomes of the shared client's loop.** -/
theorem loopRun_outcomes {st : SharedClient.LoopState} {r : Except OwnershipError SharedClient.LoopState}
    (hrun : Run (exec fun _ _ => True) Interference (c.applyLoop Operation.sanitizedID operations st).run w τ
      (.ret r) w') :
    ∃ st' left, r = .ok st' ∧ LoopRun c operations st w τ left ∧
      Appends false operations st.outcomes st'.outcomes (∀ op ∈ left, op.type ≠ .conflict) := by
  induction operations generalizing st w τ with
  | nil =>
    obtain ⟨rfl, rfl, -⟩ := run_ret hrun
    exact ⟨st, [], rfl, .done, [], by simp, .nil, by simp [Acceptable]⟩
  | cons op rest ih =>
    unfold SharedClient.applyLoop at hrun
    obtain ⟨τ₁, τ, canceled, w₁, rfl, h₁, hrun⟩ := run_call_seq hrun
    cases canceled with
    | true =>
      obtain ⟨rfl, rfl, -⟩ := run_ret hrun
      obtain ⟨hans, hiff⟩ := stop_outcomes false (op :: rest)
        (show "context-canceled" ≠ "planning-conflict" by decide)
      exact ⟨_, op :: rest, rfl, by rw [append_nil]; exact .canceled h₁, _, rfl, hans, hiff⟩
    | false =>
      obtain ⟨τ₂, τ, revoked, w₂, rfl, h₂, hrun⟩ := run_call_seq hrun
      cases revoked with
      | true =>
        obtain ⟨rfl, rfl, -⟩ := run_ret hrun
        obtain ⟨hans, hiff⟩ := stop_outcomes false (op :: rest)
          (show "authorization-revoked" ≠ "planning-conflict" by decide)
        exact ⟨_, op :: rest, rfl, by rw [append_nil]; exact .revoked h₁ h₂, _, rfl, hans, hiff⟩
      | false =>
        rw [if_neg Bool.false_ne_true] at hrun
        split at hrun
        · rename_i htype
          obtain ⟨τ₃, τ₄, r', w₃, rfl, hbody, hrun⟩ := run_attempt_seq hrun
          obtain ⟨st', left, hr, hloop, happ⟩ := ih hrun
          exact ⟨st', left, hr, .conflict h₁ h₂ htype hbody hloop,
            happ.cons ⟨_, _, _⟩ rfl (by simp [acceptableOutcome])⟩
        rename_i htype
        split at hrun
        · obtain ⟨st', left, hr, hloop, happ⟩ := ih hrun
          exact ⟨st', left, hr, .blocked h₁ h₂ htype hloop,
            happ.cons ⟨_, _, _⟩ rfl (by simp [acceptableOutcome, htype])⟩
        · obtain ⟨τ₃, τ₄, r', w₃, rfl, hbody, hrun⟩ := run_attempt_seq hrun
          obtain ⟨st', left, hr, hloop, happ⟩ := ih hrun
          obtain ⟨outcome, hst, hid, hacc⟩ := finish_outcomes st r' htype
          rw [hst] at happ
          exact ⟨st', left, hr, .applied h₁ h₂ htype hbody hloop, happ.cons outcome hid hacc⟩

/-- The outcomes of a dry run. -/
theorem dryRun_outcomes (operations : List Operation) (result : Except OwnershipError Unit) :
    Answers operations (operations.map (SharedClient.dryRunOutcome Operation.sanitizedID result)) ∧
      Acceptable true operations (operations.map (SharedClient.dryRunOutcome Operation.sanitizedID result)) := by
  induction operations with
  | nil => exact ⟨.nil, .nil⟩
  | cons op rest ih =>
    have hone : (SharedClient.dryRunOutcome Operation.sanitizedID result op).operationID = op.sanitizedID ∧
        acceptableOutcome true op (SharedClient.dryRunOutcome Operation.sanitizedID result op) = true := by
      unfold SharedClient.dryRunOutcome
      split
      · exact ⟨rfl, by simp [acceptableOutcome]⟩
      · rename_i htype
        cases result <;> exact ⟨rfl, by simp [acceptableOutcome, htype]⟩
    exact ⟨.cons hone.1 ih.1, .cons hone.2 ih.2⟩

/-- **Apply results and the runner's validation.** For distinct IDs both executors return one
outcome for each operation, in order. The client's are valid exactly when no conflict is at or
after an operation where its loop stops; the shared client's are valid exactly when it is a dry
run or no conflict is among the operations that its loop leaves. -/
theorem apply_outcomes_valid (hids : (operations.map Operation.sanitizedID).Nodup) :
    (∀ cfg turn device,
      let outcomes := (applyWithResults cfg Operation.sanitizedID dryRun operations turn device).outcomes
      outcomes.map OperationOutcome.operationID = operations.map Operation.sanitizedID ∧
      ((validateOperationOutcomes operations outcomes dryRun).2 = true ↔ ClearOfStops dryRun turn operations)) ∧
    ∀ (c : SharedClient) w τ r w',
      Run (exec fun _ _ => True) Interference (c.applyWithResults Operation.sanitizedID operations dryRun).run w τ
        (.ret r) w' →
      ∃ outcomes errs, r = .ok (outcomes, errs) ∧
        outcomes.map OperationOutcome.operationID = operations.map Operation.sanitizedID ∧
        if dryRun then (validateOperationOutcomes operations outcomes dryRun).2 = true
        else ∃ left, LoopRun c operations {} w τ left ∧
          ((validateOperationOutcomes operations outcomes dryRun).2 = true ↔
            ∀ op ∈ left, op.type ≠ .conflict) := by
  constructor
  · intro cfg turn device
    obtain ⟨outs, hafter, hans, hiff⟩ := applyLoop_outcomes cfg dryRun operations turn 0 { device := device }
    have hafter : (applyWithResults cfg Operation.sanitizedID dryRun operations turn device).outcomes =
      outs := hafter
    simp only [Nat.zero_add] at hiff
    dsimp only
    rw [hafter]
    exact ⟨hans.ids, (validate_iff hids hans).trans hiff⟩
  · intro c w τ r w' hrun
    unfold SharedClient.applyWithResults at hrun
    cases dryRun with
    | true =>
      obtain ⟨τ₁, τ₂, result, w₁, rfl, -, hrun⟩ := run_attempt_seq hrun
      obtain ⟨rfl, -, -⟩ := run_ret hrun
      obtain ⟨hans, hacc⟩ := dryRun_outcomes operations result
      exact ⟨_, _, rfl, hans.ids, (validate_iff hids hans).2 hacc⟩
    | false =>
      obtain ⟨τ₁, τ₂, result, w₁, rfl, hloop, hrun⟩ := run_bind hrun
      obtain ⟨st', left, rfl, hloop, outs, hafter, hans, hiff⟩ := loopRun_outcomes hloop
      obtain ⟨rfl, rfl, -⟩ := run_ret hrun
      have hafter : st'.outcomes = outs := hafter
      rw [append_nil]
      refine ⟨st'.outcomes, st'.errs, rfl, ?_, left, hloop, ?_⟩
      · rw [hafter]
        exact hans.ids
      · rw [hafter]
        exact (validate_iff hids hans).trans hiff

/-- A conflict. -/
def blockedOperation : Operation where
  type := .conflict
  desired := { dnsName := "app.example.com", recordType := "A", targets := ["192.0.2.1"], zone := "example.com" }
  reason := reasonNotOwned

/-- A create. -/
def missingOperation : Operation where
  type := .create
  desired := { dnsName := "web.example.com", recordType := "A", targets := ["192.0.2.2"], zone := "example.com" }
  reason := "record is missing"

/-- A context that is canceled before operation number `n`. -/
def canceledAt (n : Nat) : Nat → Turn := fun i => { canceled := decide (n ≤ i) }

/-- Canceled after the conflict, the results are valid. -/
theorem apply_outcomes_valid_canceled_later :
    ([blockedOperation, missingOperation].map Operation.sanitizedID).Nodup ∧
      (validateOperationOutcomes [blockedOperation, missingOperation]
        (applyWithResults ⟨"example.com", 0⟩ Operation.sanitizedID false [blockedOperation, missingOperation]
          (canceledAt 1) []).outcomes false).2 = true := by
  have hids : ([blockedOperation, missingOperation].map Operation.sanitizedID).Nodup := by decide +kernel
  refine ⟨hids, ((@apply_outcomes_valid _ false hids).1 ⟨"example.com", 0⟩ (canceledAt 1) []).2.2 ?_⟩
  intro i j cut op hij hcut hop hconflict
  -- the conflict is the first operation
  match j, hop with
  | 0, hop =>
    obtain rfl : i = 0 := by omega
    obtain rfl : blockedOperation = cut := Option.some.inj hcut
    decide
  | 1, hop =>
    obtain rfl : missingOperation = op := Option.some.inj hop
    simp [missingOperation] at hconflict
  | j + 2, hop => simp at hop

/-- **Canceled before the conflict, the results are invalid.** -/
theorem apply_outcomes_invalid :
    ([blockedOperation].map Operation.sanitizedID).Nodup ∧
      (validateOperationOutcomes [blockedOperation]
        (applyWithResults ⟨"example.com", 0⟩ Operation.sanitizedID false [blockedOperation]
          (canceledAt 0) []).outcomes
        false).2 = false := by
  have hids : ([blockedOperation].map Operation.sanitizedID).Nodup := nodup_singleton _
  refine ⟨hids, ?_⟩
  obtain ⟨hans, hiff⟩ := stop_outcomes false [blockedOperation]
    (show "context-canceled" ≠ "planning-conflict" by decide)
  rw [← Bool.not_eq_true]
  intro hvalid
  exact hiff.1 ((validate_iff hids hans).1 hvalid) blockedOperation mem_cons_self rfl

end FortigateDns
