import FortigateDns.Spec.Target

/-!
# Which targets survive isolation

The three passes of `IsolateDefinitionsWithActive` work on indices and remember errors. What they
leave is a property of the candidates alone.

* `uniquelyKeyed`, `incumbent`, `displaced`, `eligible`, `survives`: the property.
* `excludeDuplicates_iff`, `excludeNewcomers_iff`, `excludeOverlaps_iff`: what each pass excludes.
-/

namespace FortigateDns

open Go List

theorem scopesConflict_comm (left right : Definition) :
    scopesConflict left right = scopesConflict right left := by
  have hoverlap : writeScopesOverlap left right = writeScopesOverlap right left := by
    rw [Bool.eq_iff_iff]
    simp only [writeScopesOverlap, Bool.and_eq_true, any_eq_true, Bool.or_eq_true, Bool.not_eq_true']
    constructor
    · rintro ⟨hdry, a, ha, b, hb, h⟩
      exact ⟨by rw [Bool.or_comm]; exact hdry, b, hb, a, ha, h.symm⟩
    · rintro ⟨hdry, a, ha, b, hb, h⟩
      exact ⟨by rw [Bool.or_comm]; exact hdry, b, hb, a, ha, h.symm⟩
  have hallowed : nonDestructiveOverlapAllowed left right = nonDestructiveOverlapAllowed right left := by
    rw [Bool.eq_iff_iff]
    simp only [nonDestructiveOverlapAllowed, Bool.and_eq_true, decide_eq_true_eq]
    tauto
  rw [scopesConflict, scopesConflict, hoverlap, hallowed]

section

variable (active : GoMap Definition) (candidates : List Definition)

/-- No other candidate has the key. -/
def uniquelyKeyed (definition : Definition) : Bool :=
  candidates.countP (fun other => other.key == definition.key) == 1

/-- An unchanged target that runs. -/
def incumbent (definition : Definition) : Bool :=
  uniquelyKeyed candidates definition && sameActiveTarget active definition

/-- A newcomer that claims the scope of an incumbent. -/
def displaced (definition : Definition) : Bool :=
  !incumbent active candidates definition &&
    candidates.any fun other => incumbent active candidates other && scopesConflict definition other

/-- What is left for the comparison of scopes. -/
def eligible (definition : Definition) : Bool :=
  uniquelyKeyed candidates definition && !displaced active candidates definition

/-- **No other candidate that is eligible claims the scope.** -/
def survives (definition : Definition) : Bool :=
  eligible active candidates definition &&
    !candidates.any fun other => other.key != definition.key && eligible active candidates
      other && scopesConflict definition other

end

variable {active : GoMap Definition} {candidates : List Definition}

/-- The keys seen so far are those of the indices visited, and excluded are those that share one. -/
structure DuplicatesSeen (visited : List (Fin candidates.length)) (excluded : Excluded candidates)
    (seen : GoMap (Fin candidates.length)) : Prop where
  seenVisited : ∀ key i, seen.lookup key = some i → i ∈ visited ∧ (candidates.get i).key = key
  visitedSeen : ∀ i ∈ visited, seen.lookup (candidates.get i).key ≠ none
  excludedIff : ∀ i, excluded i ≠ none ↔
    i ∈ visited ∧ ∃ j ∈ visited, j ≠ i ∧ (candidates.get j).key = (candidates.get i).key

section DuplicateStep

variable {visited : List (Fin candidates.length)} {excluded : Excluded candidates}
variable {seen : GoMap (Fin candidates.length)} {i first : Fin candidates.length}
variable (h : DuplicatesSeen visited excluded seen)
include h

/-- An index with a new key. -/
theorem DuplicatesSeen.new_key (hlookup : seen.lookup (candidates.get i).key = none) :
    DuplicatesSeen (visited ++ [i]) excluded (seen.set (candidates.get i).key i) := by
  have hnew : ∀ k ∈ visited, (candidates.get k).key ≠ (candidates.get i).key := by
    intro k hk hkey
    have := h.visitedSeen k hk
    rw [hkey, hlookup] at this
    exact this rfl
  refine ⟨?_, ?_, ?_⟩
  · intro key j hj
    rw [GoMap.lookup_set] at hj
    split at hj
    · rename_i hkey
      obtain rfl := Option.some.inj hj
      exact ⟨by simp, hkey.symm⟩
    · obtain ⟨hmem, hkey⟩ := h.seenVisited key j hj
      exact ⟨by simp [hmem], hkey⟩
  · intro j hj
    rw [GoMap.lookup_set]
    split
    · simp
    · rename_i hkey
      rcases mem_append.1 hj with hj | hj
      · exact h.visitedSeen j hj
      · exact absurd (by rw [mem_singleton.1 hj]) hkey
  · intro j
    rw [h.excludedIff]
    constructor
    · rintro ⟨hj, k, hk, hne, hkey⟩
      exact ⟨by simp [hj], k, by simp [hk], hne, hkey⟩
    · rintro ⟨hj, k, hk, hne, hkey⟩
      simp only [mem_append, mem_singleton] at hj hk
      rcases hj with hj | rfl
      · rcases hk with hk | rfl
        · exact ⟨hj, k, hk, hne, hkey⟩
        · exact absurd hkey.symm (hnew j hj)
      · rcases hk with hk | rfl
        · exact absurd hkey (hnew k hk)
        · exact absurd rfl hne

/-- An index with a key that was seen before: it is excluded, and the first index with that key. -/
theorem DuplicatesSeen.seen_again (hfresh : i ∉ visited)
    (hlookup : seen.lookup (candidates.get i).key = some first) (err : TargetError) :
    DuplicatesSeen (visited ++ [i])
      (Function.update (Function.update excluded i (some err)) first (some err)) seen := by
  obtain ⟨hfirst, hfirstKey⟩ := h.seenVisited _ _ hlookup
  have hne : first ≠ i := fun heq => hfresh (heq ▸ hfirst)
  refine ⟨?_, ?_, ?_⟩
  · intro key j hj
    obtain ⟨hmem, hkey⟩ := h.seenVisited key j hj
    exact ⟨by simp [hmem], hkey⟩
  · intro j hj
    rcases mem_append.1 hj with hj | hj
    · exact h.visitedSeen j hj
    · rw [mem_singleton.1 hj, hlookup]
      exact Option.some_ne_none first
  · intro j
    by_cases hjfirst : j = first
    · subst hjfirst
      simp only [Function.update_self, ne_eq, reduceCtorEq, not_false_eq_true, true_iff]
      exact ⟨by simp [hfirst], i, by simp, hne.symm, hfirstKey.symm⟩
    · rw [Function.update_of_ne hjfirst]
      by_cases hji : j = i
      · subst hji
        simp only [Function.update_self, ne_eq, reduceCtorEq, not_false_eq_true, true_iff]
        exact ⟨by simp, first, by simp [hfirst], hne, hfirstKey⟩
      · rw [Function.update_of_ne hji, h.excludedIff]
        constructor
        · rintro ⟨hj, k, hk, hkne, hkey⟩
          exact ⟨by simp [hj], k, by simp [hk], hkne, hkey⟩
        · rintro ⟨hj, k, hk, hkne, hkey⟩
          have hjv : j ∈ visited := by simpa [hji] using hj
          refine ⟨hjv, ?_⟩
          rcases mem_append.1 hk with hk | hk
          · exact ⟨k, hk, hkne, hkey⟩
          · -- the first index with the key stands for the new one
            rw [mem_singleton.1 hk] at hkey
            exact ⟨first, hfirst, Ne.symm hjfirst, hfirstKey.trans hkey⟩

/-- **One round of the loop over the candidates.** -/
theorem DuplicatesSeen.step (hfresh : i ∉ visited) :
    DuplicatesSeen (visited ++ [i]) (duplicateStep candidates (excluded, seen) i).1
      (duplicateStep candidates (excluded, seen) i).2 := by
  cases hlookup : seen.lookup (candidates.get i).key with
  | none =>
    simp only [duplicateStep, hlookup]
    exact h.new_key hlookup
  | some first =>
    simp only [duplicateStep, hlookup]
    exact h.seen_again hfresh hlookup _

end DuplicateStep

theorem duplicatesSeen_foldl (rest visited : List (Fin candidates.length)) (hnodup : (visited ++ rest).Nodup)
    (excluded : Excluded candidates) (seen : GoMap (Fin candidates.length))
    (h : DuplicatesSeen visited excluded seen) :
    DuplicatesSeen (visited ++ rest) (rest.foldl (duplicateStep candidates) (excluded, seen)).1
      (rest.foldl (duplicateStep candidates) (excluded, seen)).2 := by
  induction rest generalizing visited excluded seen with
  | nil => simpa using h
  | cons i rest ih =>
    have hfresh : i ∉ visited := fun hmem =>
      (nodup_append.1 hnodup).2.2 i hmem i mem_cons_self rfl
    have happend : visited ++ i :: rest = (visited ++ [i]) ++ rest := by simp
    rw [happend] at hnodup ⊢
    exact ih _ hnodup _ _ (h.step hfresh)

theorem excludeDuplicates_iff (i : Fin candidates.length) :
    excludeDuplicates candidates i ≠ none ↔ ∃ j, j ≠ i ∧ (candidates.get j).key = (candidates.get i).key := by
  have hstart : DuplicatesSeen [] (fun _ => none : Excluded candidates) ∅ := ⟨by simp, by simp, by simp⟩
  have h := duplicatesSeen_foldl (List.finRange candidates.length) [] (nodup_finRange _) _ _ hstart
  have hiff := h.excludedIff i
  simp only [nil_append, mem_finRange, true_and] at hiff
  exact hiff

/-- A round excludes the newcomer if there is an incumbent that it conflicts with. -/
theorem newcomerStep_iff {isIncumbent : Fin candidates.length → Bool} (excluded : Excluded candidates)
    (i k : Fin candidates.length) :
    newcomerStep candidates isIncumbent excluded i k ≠ none ↔
      excluded k ≠ none ∨ k = i ∧ isIncumbent i = false ∧
        ∃ j, isIncumbent j = true ∧ scopesConflict (candidates.get i) (candidates.get j) = true := by
  unfold newcomerStep
  split
  · rename_i hskip
    simp only [Bool.or_eq_true, decide_eq_true_eq] at hskip
    constructor
    · exact Or.inl
    · rintro (h | ⟨rfl, hnew, -⟩)
      · exact h
      · rw [hnew] at hskip
        simpa using hskip
  · rename_i hvisit
    simp only [Bool.or_eq_true, decide_eq_true_eq, not_or, not_not, Bool.not_eq_true] at hvisit
    cases hfind : (List.finRange candidates.length).find? fun j =>
        isIncumbent j && scopesConflict (candidates.get i) (candidates.get j) with
    | some j =>
      have hj := find?_some hfind
      simp only [Bool.and_eq_true] at hj
      by_cases hki : k = i
      · subst hki
        simp only [Function.update_self, ne_eq, reduceCtorEq, not_false_eq_true, true_iff]
        exact Or.inr ⟨trivial, hvisit.2, j, hj⟩
      · simp [hki]
    | none =>
      constructor
      · exact Or.inl
      · rintro (h | ⟨-, -, j, hj⟩)
        · exact h
        · have hnone := find?_eq_none.1 hfind j (mem_finRange j)
          exact absurd (by rw [hj.1, hj.2]; rfl) hnone

theorem newcomers_foldl {isIncumbent : Fin candidates.length → Bool} (visited : List (Fin candidates.length))
    (excluded : Excluded candidates) (k : Fin candidates.length) :
    visited.foldl (newcomerStep candidates isIncumbent) excluded k ≠ none ↔
      excluded k ≠ none ∨ k ∈ visited ∧ isIncumbent k = false ∧
        ∃ j, isIncumbent j = true ∧ scopesConflict (candidates.get k) (candidates.get j) = true := by
  induction visited generalizing excluded with
  | nil => simp
  | cons i visited ih =>
    rw [foldl_cons, ih, newcomerStep_iff, or_assoc, mem_cons, or_and_right]
    refine or_congr_right (or_congr_left ?_)
    constructor
    · rintro ⟨rfl, h⟩
      exact ⟨rfl, h⟩
    · rintro ⟨rfl, h⟩
      exact ⟨rfl, h⟩

theorem excludeNewcomers_iff (excluded : Excluded candidates) (k : Fin candidates.length) :
    excludeNewcomers active candidates excluded k ≠ none ↔ excluded k ≠ none ∨
      incumbents active candidates excluded k = false ∧
        ∃ j, incumbents active candidates excluded j = true ∧ scopesConflict (candidates.get k)
          (candidates.get j) = true := by
  unfold excludeNewcomers
  rw [newcomers_foldl]
  simp only [mem_finRange, true_and]

theorem mem_indexPairs {n : Nat} {i j : Fin n} : (i, j) ∈ indexPairs n ↔ i < j := by
  simp [indexPairs]

/-- A comparison excludes the two sides of a conflict, and nothing else. -/
theorem overlapStep_iff {isEligible : Fin candidates.length → Bool} (excluded : Excluded candidates)
    (pair : Fin candidates.length × Fin candidates.length) (k : Fin candidates.length) :
    overlapStep candidates isEligible excluded pair k ≠ none ↔
      excluded k ≠ none ∨ (k = pair.1 ∨ k = pair.2) ∧ isEligible pair.1 = true ∧ isEligible pair.2 = true ∧
        scopesConflict (candidates.get pair.1) (candidates.get pair.2) = true := by
  obtain ⟨i, j⟩ := pair
  unfold overlapStep
  dsimp only
  split
  · rename_i hskip
    simp only [Bool.or_eq_true, Bool.not_eq_true'] at hskip
    constructor
    · exact Or.inl
    · rintro (h | ⟨-, hi, hj, hconflict⟩)
      · exact h
      · rcases hskip with (h | h) | h
        · rw [hi] at h; cases h
        · rw [hj] at h; cases h
        · rw [hconflict] at h; cases h
  · rename_i hboth
    simp only [Bool.or_eq_true, Bool.not_eq_true', not_or, Bool.not_eq_false] at hboth
    obtain ⟨⟨hi, hj⟩, hconflict⟩ := hboth
    simp only [hi, hj, hconflict, and_true]
    by_cases hki : k = i
    · subst hki
      by_cases hkj : k = j
      · subst hkj
        split_ifs <;> simp_all
      · split_ifs <;> simp_all
    · by_cases hkj : k = j
      · subst hkj
        split_ifs <;> simp_all
      · split_ifs <;> simp_all

theorem overlaps_foldl {isEligible : Fin candidates.length → Bool}
    (pairs : List (Fin candidates.length × Fin candidates.length)) (excluded : Excluded candidates)
    (k : Fin candidates.length) :
    pairs.foldl (overlapStep candidates isEligible) excluded k ≠ none ↔
      excluded k ≠ none ∨ ∃ pair ∈ pairs, (k = pair.1 ∨ k = pair.2) ∧ isEligible pair.1 = true ∧
        isEligible pair.2 = true ∧ scopesConflict (candidates.get pair.1) (candidates.get pair.2) = true := by
  induction pairs generalizing excluded with
  | nil => simp
  | cons pair pairs ih =>
    rw [foldl_cons, ih, overlapStep_iff, or_assoc]
    simp only [mem_cons, exists_eq_or_imp]

theorem excludeOverlaps_iff (excluded : Excluded candidates) (k : Fin candidates.length) :
    excludeOverlaps candidates excluded k ≠ none ↔ excluded k ≠ none ∨
      excluded k = none ∧ ∃ j, j ≠ k ∧ excluded j = none ∧ scopesConflict (candidates.get k)
        (candidates.get j) = true := by
  unfold excludeOverlaps
  rw [overlaps_foldl]
  refine or_congr_right ?_
  simp only [decide_eq_true_eq]
  constructor
  · rintro ⟨⟨i, j⟩, hpair, hk | hk, hi, hj, hconflict⟩
    · subst hk
      exact ⟨hi, j, (ne_of_lt (mem_indexPairs.1 hpair)).symm, hj, hconflict⟩
    · subst hk
      exact ⟨hj, i, ne_of_lt (mem_indexPairs.1 hpair), hi, by rw [scopesConflict_comm]; exact hconflict⟩
  · rintro ⟨hk, j, hne, hj, hconflict⟩
    rcases lt_or_gt_of_ne hne with hlt | hlt
    · exact ⟨(j, k), mem_indexPairs.2 hlt, Or.inr rfl, hj, hk, by rw [scopesConflict_comm]; exact hconflict⟩
    · exact ⟨(k, j), mem_indexPairs.2 hlt, Or.inl rfl, hk, hj, hconflict⟩

/-- An element with the property is the only one when it is counted once. -/
theorem countP_eq_one_iff {α : Type} {p : α → Bool} {l : List α} {i : Fin l.length} (hi : p (l.get i) = true) :
    l.countP p = 1 ↔ ∀ j, p (l.get j) = true → j = i := by
  have hcount : l.countP p = ((List.finRange l.length).filter fun j => p (l.get j)).length := by
    conv_lhs => rw [← map_get_finRange l]
    rw [countP_map, countP_eq_length_filter]
    rfl
  have hmem : ∀ j, j ∈ (List.finRange l.length).filter (fun j => p (l.get j)) ↔ p (l.get j) = true := by simp
  have hnodup := (nodup_finRange l.length).filter fun j => p (l.get j)
  rw [hcount]
  constructor
  · intro hone j hj
    obtain ⟨a, ha⟩ := length_eq_one_iff.1 hone
    have hja := (hmem j).2 hj
    have hia := (hmem i).2 hi
    rw [ha, mem_singleton] at hja hia
    rw [hja, hia]
  · intro honly
    have hperm : ((List.finRange l.length).filter fun j => p (l.get j)).Perm [i] := by
      rw [perm_ext_iff_of_nodup hnodup (by simp)]
      intro j
      rw [hmem, mem_singleton]
      exact ⟨honly j, fun hj => hj ▸ hi⟩
    exact hperm.length_eq

theorem uniquelyKeyed_get (i : Fin candidates.length) :
    uniquelyKeyed candidates (candidates.get i) = true ↔
      ∀ j, (candidates.get j).key = (candidates.get i).key → j = i := by
  unfold uniquelyKeyed
  rw [beq_iff_eq, countP_eq_one_iff (i := i) (by simp)]
  simp only [beq_iff_eq]

theorem excludeDuplicates_none (i : Fin candidates.length) :
    excludeDuplicates candidates i = none ↔ uniquelyKeyed candidates (candidates.get i) = true := by
  rw [← not_iff_not, ← ne_eq, excludeDuplicates_iff, uniquelyKeyed_get]
  simp only [not_forall, exists_prop]
  exact exists_congr fun j => and_comm

theorem incumbents_get (i : Fin candidates.length) :
    incumbents active candidates (excludeDuplicates candidates) i = incumbent active candidates
      (candidates.get i) := by
  unfold incumbents incumbent
  rw [Bool.eq_iff_iff, Bool.and_eq_true, Bool.and_eq_true, decide_eq_true_eq, excludeDuplicates_none]

/-- What holds of a candidate holds at an index. -/
theorem any_get {p : Definition → Bool} : candidates.any p = true ↔ ∃ j, p (candidates.get j) = true := by
  rw [any_eq_true]
  constructor
  · rintro ⟨d, hd, hp⟩
    obtain ⟨j, rfl⟩ := List.get_of_mem hd
    exact ⟨j, hp⟩
  · rintro ⟨j, hp⟩
    exact ⟨_, get_mem candidates j, hp⟩

theorem excludeNewcomers_none (i : Fin candidates.length) :
    excludeNewcomers active candidates (excludeDuplicates candidates) i = none ↔
      eligible active candidates (candidates.get i) = true := by
  have hdisplaced : displaced active candidates (candidates.get i) = true ↔
      incumbents active candidates (excludeDuplicates candidates) i = false ∧
        ∃ j, incumbents active candidates (excludeDuplicates candidates) j = true ∧
          scopesConflict (candidates.get i) (candidates.get j) = true := by
    unfold displaced
    simp only [Bool.and_eq_true, Bool.not_eq_true', any_get, incumbents_get]
  have hnone := not_congr (@excludeNewcomers_iff active _ (excludeDuplicates candidates) i)
  rw [not_ne_iff, not_or, not_ne_iff, excludeDuplicates_none, ← hdisplaced] at hnone
  rw [hnone, eligible, Bool.and_eq_true, Bool.not_eq_true', Bool.not_eq_true]

theorem excludedCandidates_none (i : Fin candidates.length) :
    excludedCandidates active candidates i = none ↔ survives active candidates (candidates.get i) = true := by
  have hnone := not_congr (excludeOverlaps_iff
    (excludeNewcomers active candidates (excludeDuplicates candidates)) i)
  rw [not_ne_iff, not_or, not_ne_iff, excludeNewcomers_none] at hnone
  unfold excludedCandidates
  rw [hnone, survives, Bool.and_eq_true, Bool.not_eq_true', ← Bool.not_eq_true, any_get]
  refine and_congr_right fun heligible => ?_
  rw [not_and]
  have hunique : uniquelyKeyed candidates (candidates.get i) = true := by
    unfold eligible at heligible
    exact (Bool.and_eq_true _ _ ▸ heligible).1
  simp only [heligible, true_imp_iff, Bool.and_eq_true, bne_iff_ne, excludeNewcomers_none]
  refine not_congr (exists_congr fun j => ?_)
  -- for a key of its own, another index is another key
  have hkey : j ≠ i ↔ (candidates.get j).key ≠ (candidates.get i).key :=
    ⟨fun hne heq => hne ((uniquelyKeyed_get i).1 hunique j heq), fun hne heq => hne (by rw [heq])⟩
  rw [hkey, and_assoc]

section

variable (parseURL : String → Option ParsedURL)

/-- The candidates: the definitions that are valid on their own, as validation leaves them. -/
def validCandidates (definitions : List Definition) : List Definition :=
  definitions.filterMap fun definition =>
    match validateDefinition parseURL definition with
    | (_, some _) => none
    | (checked, none) => some checked

theorem mem_validCandidates {parseURL : String → Option ParsedURL} {definitions : List Definition}
    {c : Definition} :
    c ∈ validCandidates parseURL definitions ↔ ∃ d ∈ definitions, validateDefinition parseURL d = (c, none) := by
  unfold validCandidates
  rw [mem_filterMap]
  refine exists_congr fun d => and_congr_right fun _ => ?_
  rcases validateDefinition parseURL d with ⟨checked, _ | err⟩ <;> simp

/-- The definitions that are not, with their errors. -/
def rejectedDefinitions (definitions : List Definition) : List (Definition × TargetError) :=
  definitions.filterMap fun definition =>
    match validateDefinition parseURL definition with
    | (rejected, some err) => some (rejected, err)
    | (_, none) => none

/-- Adds entries with one reason. -/
def addAllInvalid (reason : FailureReason) (entries : List (Definition × TargetError))
    (invalid : GoMap InvalidTarget) :
    GoMap InvalidTarget :=
  entries.foldl (fun invalid entry => addInvalid entry.1 reason entry.2 invalid) invalid

theorem validateCandidates_eq (definitions : List Definition) :
    validateCandidates parseURL definitions =
      (validCandidates parseURL definitions,
        addAllInvalid .invalid (rejectedDefinitions parseURL definitions) ∅) := by
  have hfold : ∀ (l candidates : List Definition) (invalid : GoMap InvalidTarget),
      l.foldl (fun (st : List Definition × GoMap InvalidTarget) definition =>
        match validateDefinition parseURL definition with
        | (checked, some err) => (st.1, addInvalid checked .invalid err st.2)
        | (checked, none) => (st.1 ++ [checked], st.2)) (candidates, invalid) =
      (candidates ++ validCandidates parseURL l,
        addAllInvalid .invalid (rejectedDefinitions parseURL l) invalid) := by
    intro l
    induction l with
    | nil => intro candidates invalid; simp [validCandidates, rejectedDefinitions, addAllInvalid]
    | cons definition l ih =>
      intro candidates invalid
      rw [foldl_cons]
      rcases hvalidate : validateDefinition parseURL definition with ⟨checked, _ | err⟩
      · simp only [ih]
        simp [validCandidates, rejectedDefinitions, hvalidate]
      · simp only [ih]
        simp [validCandidates, rejectedDefinitions, hvalidate, addAllInvalid]
  exact hfold definitions [] ∅

theorem reason_addAllInvalid (reason : FailureReason) (entries : List (Definition × TargetError))
    (invalid : GoMap InvalidTarget) (key : String) :
    ((addAllInvalid reason entries invalid).lookup key).map InvalidTarget.reason =
      if entries.any (fun entry => entry.1.key == key) then some reason
      else (invalid.lookup key).map InvalidTarget.reason := by
  induction entries generalizing invalid with
  | nil => rfl
  | cons entry entries ih =>
    show ((addAllInvalid reason entries (addInvalid entry.1 reason entry.2 invalid)).lookup key).map _ = _
    rw [ih, any_cons]
    by_cases hrest : entries.any (fun entry => entry.1.key == key) = true
    · simp [hrest]
    · unfold addInvalid
      rw [if_neg hrest, GoMap.lookup_set]
      by_cases hkey : key = entry.1.key
      · simp [hkey]
      · simp [hkey, Ne.symm hkey, hrest]

/-- The candidates that are excluded, with their errors. -/
def excludedEntries (active : GoMap Definition) (candidates : List Definition) :
    List (Definition × TargetError) :=
  (List.finRange candidates.length).filterMap fun i =>
    (excludedCandidates active candidates i).map fun err => (candidates.get i, err)

theorem isolate_eq (definitions : List Definition) (active : GoMap Definition) :
    let candidates := validCandidates parseURL definitions
    isolateDefinitionsWithActive parseURL definitions active =
      ⟨((List.finRange candidates.length).filter fun i =>
        decide (excludedCandidates active candidates i = none)).map
          candidates.get,
        addAllInvalid .conflict (excludedEntries active candidates)
          (addAllInvalid .invalid (rejectedDefinitions parseURL definitions) ∅)⟩ := by
  intro candidates
  have hfold : ∀ (l : List (Fin candidates.length)) (set : DefinitionSet),
      l.foldl (fun set i => (excludedCandidates active candidates i).elim
        { set with valid := set.valid ++ [candidates.get i] }
        fun err => { set with invalid := addInvalid (candidates.get i) .conflict err set.invalid }) set =
      ⟨set.valid ++ (l.filter fun i => decide (excludedCandidates active candidates i = none)).map candidates.get,
        addAllInvalid .conflict
          (l.filterMap fun i => (excludedCandidates active candidates i).map fun err => (candidates.get i, err))
          set.invalid⟩ := by
    intro l
    induction l with
    | nil => intro set; simp [addAllInvalid]
    | cons i l ih =>
      intro set
      rw [foldl_cons, ih]
      cases hexcluded : excludedCandidates active candidates i with
      | none => simp [hexcluded]
      | some err => simp [hexcluded, addAllInvalid]
  unfold isolateDefinitionsWithActive
  rw [validateCandidates_eq]
  refine Eq.trans ?_ ((hfold (List.finRange candidates.length)
    ⟨[], addAllInvalid .invalid (rejectedDefinitions parseURL definitions) ∅⟩).trans (by simp [excludedEntries]))
  dsimp only
  congr 1
  funext set i
  cases excludedCandidates active candidates i <;> rfl

/-- **The valid targets are the candidates that survive.** -/
theorem isolate_valid (definitions : List Definition) (active : GoMap Definition) :
    (isolateDefinitionsWithActive parseURL definitions active).valid =
      (validCandidates parseURL definitions).filter (survives active (validCandidates parseURL definitions)) := by
  rw [isolate_eq]
  simp only
  conv_rhs => rw [← map_get_finRange (validCandidates parseURL definitions), filter_map]
  congr 1
  refine filter_congr fun i _ => ?_
  rw [Bool.eq_iff_iff, decide_eq_true_eq, excludedCandidates_none]
  simp

/-- **The reasons of the others**: a conflict for a candidate that does not survive. -/
theorem isolate_reason (definitions : List Definition) (active : GoMap Definition) (key : String) :
    ((isolateDefinitionsWithActive parseURL definitions active).invalid.lookup key).map InvalidTarget.reason =
      if (validCandidates parseURL definitions).any (fun candidate =>
          !survives active (validCandidates parseURL definitions)
            candidate && candidate.key == key) then some .conflict
      else if (rejectedDefinitions parseURL definitions).any (fun entry => entry.1.key == key) then some .invalid
      else none := by
  rw [isolate_eq]
  simp only
  have hexcluded : (excludedEntries active (validCandidates parseURL definitions)).any
    (fun entry => entry.1.key == key) =
      (validCandidates parseURL definitions).any (fun candidate =>
        !survives active (validCandidates parseURL definitions) candidate && candidate.key == key) := by
    rw [Bool.eq_iff_iff, any_get, any_eq_true]
    simp only [Bool.and_eq_true, Bool.not_eq_true', ← Bool.not_eq_true, ← excludedCandidates_none]
    constructor
    · rintro ⟨entry, hentry, hkey⟩
      obtain ⟨i, -, hi⟩ := mem_filterMap.1 hentry
      obtain ⟨err, herr, rfl⟩ := Option.map_eq_some_iff.1 hi
      exact ⟨i, by rw [herr]; exact Option.some_ne_none err, hkey⟩
    · rintro ⟨i, hi, hkey⟩
      obtain ⟨err, herr⟩ := Option.ne_none_iff_exists'.1 hi
      refine ⟨(_, err), mem_filterMap.2 ⟨i, mem_finRange i, ?_⟩, hkey⟩
      rw [herr]
      rfl
  rw [reason_addAllInvalid, reason_addAllInvalid, hexcluded]
  simp

end

end FortigateDns
