import FortigateDns.Proof.Keys
import FortigateDns.Spec.GroupPlan

/-!
# The planner's maps in closed form

For well-formed input, what each map of `buildWithCleanupScope` holds under a name does not
depend on any iteration order: the desired endpoints of the name (`lookup_groupDesired`),
the conflicts found before the transitions (`lookup_unownedConflicts`) and the conflicts and
replacements after them (`lookup_cnameTransitions`) are functions of that name's desired
endpoints and rows.
-/

namespace FortigateDns

open Go GoMap List

variable {rt : Runtime} {desired current : List Endpoint}
variable {e : Endpoint} {g : String} {C : List Endpoint} {op : Operation}

theorem id_perm (l : List String) : (id l).Perm l := List.Perm.refl l

theorem lookup_indexDesired_mem (hd : ∀ e ∈ desired, e.WellFormed) {k : String} {v : Endpoint}
    (h : (indexDesired desired).lookup k = some v) : v ∈ desired ∧ k = v.key := by
  have key : ∀ (l : List Endpoint) (m : GoMap Endpoint), (∀ e ∈ l, e.WellFormed) →
      (l.foldl (fun m e => m.set e.normalize.key e.normalize) m).lookup k = some v →
      (v ∈ l ∧ k = v.key) ∨ m.lookup k = some v := by
    intro l
    induction l with
    | nil => intro m _ h; right; exact h
    | cons e l ih =>
      intro m hl h
      simp only [foldl_cons, (hl e mem_cons_self).fixed] at h
      rcases ih _ (fun x hx => hl x (mem_cons_of_mem _ hx)) h with ⟨h1, h2⟩ | h
      · left; exact ⟨mem_cons_of_mem _ h1, h2⟩
      · rw [lookup_set] at h
        split at h
        · rename_i hk
          left; simp only [Option.some.injEq] at h
          subst h; exact ⟨mem_cons_self, hk⟩
        · right; exact h
  rcases key desired ∅ hd h with h | h
  · exact h
  · simp at h

/-- Every desired endpoint's key is in the index. -/
theorem lookup_indexDesired_isSome (hd : ∀ e ∈ desired, e.WellFormed) (he : e ∈ desired) :
    ((indexDesired desired).lookup e.key).isSome := by
  have key : ∀ (l : List Endpoint) (m : GoMap Endpoint) (k : String), (∀ e ∈ l, e.WellFormed) →
      ((m.lookup k).isSome ∨ ∃ e ∈ l, e.key = k) →
      ((l.foldl (fun m e => m.set e.normalize.key e.normalize) m).lookup k).isSome := by
    intro l
    induction l with
    | nil => intro m k _ h; simpa using h
    | cons x l ih =>
      intro m k hl h
      simp only [foldl_cons, (hl x mem_cons_self).fixed]
      apply ih _ _ (fun y hy => hl y (mem_cons_of_mem _ hy))
      rw [lookup_set]
      rcases h with h | ⟨y, hy, hk⟩
      · left; split
        · rfl
        · exact h
      · rcases mem_cons.1 hy with rfl | hy
        · left; simp [hk]
        · right; exact ⟨y, hy, hk⟩
  exact key desired ∅ e.key hd (Or.inr ⟨e, he, rfl⟩)

/-- The values a range over the desired index visits. -/
theorem rangeValues_perm (rt : Runtime) (site : RangeSite) :
    ((rt.range site (indexDesired desired)).map Prod.snd).Perm (desiredValues desired) :=
  (range_perm (rt.order_perm site) id_perm _).map _

theorem mem_desiredValues (hd : ∀ e ∈ desired, e.WellFormed) :
    e ∈ desiredValues desired ↔ (indexDesired desired).lookup e.key = some e := by
  unfold desiredValues
  simp only [mem_map, Prod.exists, exists_eq_right]
  constructor
  · rintro ⟨k, hk⟩
    rw [mem_range id_perm] at hk
    rw [(lookup_indexDesired_mem hd hk).2] at hk; exact hk
  · intro h; exact ⟨e.key, (mem_range id_perm _).2 h⟩

theorem mem_of_mem_desiredValues (hd : ∀ e ∈ desired, e.WellFormed) (he : e ∈ desiredValues desired) :
    e ∈ desired :=
  (lookup_indexDesired_mem hd ((mem_desiredValues hd).1 he)).1

theorem wf_of_mem_desiredValues (hd : ∀ e ∈ desired, e.WellFormed) (he : e ∈ desiredValues desired) :
    e.WellFormed :=
  hd e (mem_of_mem_desiredValues hd he)

/-- The keys of the desired values are distinct. -/
theorem desiredValues_keys_nodup (hd : ∀ e ∈ desired, e.WellFormed) :
    ((desiredValues desired).map Endpoint.key).Nodup := by
  have h := @range_keys_nodup _ id id_perm (indexDesired desired)
  unfold desiredValues
  rw [map_map]
  convert h using 1
  apply map_congr_left
  rintro ⟨k, v⟩ hkv
  rw [mem_range id_perm] at hkv
  exact (lookup_indexDesired_mem hd hkv).2.symm

theorem desiredValues_inj (hd : ∀ e ∈ desired, e.WellFormed) {f : Endpoint} (he : e ∈ desiredValues desired)
    (hf : f ∈ desiredValues desired) (h : e.key = f.key) : e = f := by
  have h1 := (mem_desiredValues hd).1 he
  have h2 := (mem_desiredValues hd).1 hf
  rw [h, h2] at h1
  exact (Option.some.inj h1).symm

/-- A key is in the index iff a desired value has it. -/
theorem lookup_indexDesired_isSome_iff (hd : ∀ e ∈ desired, e.WellFormed) {k : String} :
    ((indexDesired desired).lookup k).isSome ↔ ∃ e ∈ desiredValues desired, e.key = k := by
  constructor
  · intro h
    obtain ⟨v, hv⟩ := Option.isSome_iff_exists.1 h
    have hk := (lookup_indexDesired_mem hd hv).2
    exact ⟨v, (mem_desiredValues hd).2 (hk ▸ hv), hk.symm⟩
  · rintro ⟨e, he, rfl⟩
    rw [(mem_desiredValues hd).1 he]; rfl

theorem mem_desiredOf : e ∈ desiredOf desired g ↔ e ∈ desiredValues desired ∧ e.mutationGroupKey = g := by
  unfold desiredOf
  rw [mem_insertionSort, mem_filter]
  simp

theorem desiredOf_perm (g : String) :
    (desiredOf desired g).Perm ((desiredValues desired).filter fun e => e.mutationGroupKey = g) :=
  perm_insertionSort _ _

theorem desiredOf_sorted (g : String) : (desiredOf desired g).Pairwise fun a b => a.key ≤ b.key := by
  have : Std.Total (fun a b : Endpoint => a.key ≤ b.key) := ⟨fun a b => le_total _ _⟩
  have : IsTrans Endpoint (fun a b => a.key ≤ b.key) := ⟨fun a b c => le_trans⟩
  exact pairwise_insertionSort _ _

theorem desiredOf_keys_nodup (hd : ∀ e ∈ desired, e.WellFormed) (g : String) :
    ((desiredOf desired g).map Endpoint.key).Nodup :=
  (((desiredOf_perm g).map _).nodup_iff).2
    ((desiredValues_keys_nodup hd).sublist (filter_sublist.map _))

/-- Any list of the desired values, sorted for one name, is `desiredOf`. -/
theorem sort_eq_desiredOf (hd : ∀ e ∈ desired, e.WellFormed) {l : List Endpoint}
    (hl : l.Perm (desiredValues desired)) (g : String) :
    sortEndpoints rt (l.filter fun e => e.mutationGroupKey = g) = desiredOf desired g := by
  have : Std.Total (fun a b : Endpoint => a.key ≤ b.key) := ⟨fun a b => le_total _ _⟩
  have : IsTrans Endpoint (fun a b => a.key ≤ b.key) := ⟨fun a b c => le_trans⟩
  have hp : (sortEndpoints rt (l.filter fun e => e.mutationGroupKey = g)).Perm (desiredOf desired g) :=
    ((perm_insertionSort _ _).trans ((rt.tieEndpoints_perm _).trans (hl.filter _))).trans
      (desiredOf_perm g).symm
  refine hp.eq_of_pairwise ?_ (pairwise_insertionSort _ _) (desiredOf_sorted g)
  intro a b ha hb hab hba
  have ha' := (mem_desiredOf.1 (hp.mem_iff.1 ha)).1
  exact desiredValues_inj hd ha' (mem_desiredOf.1 hb).1 (le_antisymm hab hba)

theorem lookup_foldl_keys {β : Type} (f : String → β) (g : String) :
    ∀ (ks : List String) (m : GoMap β),
      (ks.foldl (fun m k => m.set k (f k)) m).lookup g = if g ∈ ks then some (f g) else m.lookup g := by
  intro ks
  induction ks with
  | nil => intro m; simp
  | cons k ks ih =>
    intro m
    simp only [foldl_cons]
    rw [ih, lookup_set]
    by_cases h1 : g ∈ ks <;> by_cases h2 : g = k <;> simp [h1, h2]

/-- **The desired endpoints of a name**, whatever the iteration order. -/
theorem lookup_groupDesired (hd : ∀ e ∈ desired, e.WellFormed) (g : String) :
    (groupDesired rt (indexDesired desired)).lookup g =
      if desiredOf desired g = [] then none else some (desiredOf desired g) := by
  unfold groupDesired
  simp only
  rw [lookup_foldl_keys, slice_groupBy, sort_eq_desiredOf hd (rangeValues_perm rt .groupDesired)]
  have hmem : g ∈ (groupBy Endpoint.mutationGroupKey
      ((rt.range .groupDesired (indexDesired desired)).map Prod.snd)).keys ↔ desiredOf desired g ≠ [] := by
    rw [← AList.mem_keys, ← AList.lookup_isSome, lookup_groupBy]
    constructor
    · intro h
      split at h
      · rename_i hm
        obtain ⟨e, he, hg⟩ := mem_map.1 hm
        exact ne_nil_of_mem (mem_desiredOf.2 ⟨(rangeValues_perm rt _).mem_iff.1 he, hg⟩)
      · simp at h
    · intro h
      obtain ⟨e, he⟩ := exists_mem_of_ne_nil _ h
      obtain ⟨h1, h2⟩ := mem_desiredOf.1 he
      rw [if_pos (mem_map.2 ⟨e, (rangeValues_perm rt _).mem_iff.2 h1, h2⟩)]; rfl
  by_cases h : desiredOf desired g = []
  · rw [if_neg (fun hm => hmem.1 hm h), if_pos h]; rfl
  · rw [if_pos (hmem.2 h), if_neg h]

/-- The conflicts of the desired sets. -/
theorem lookup_desiredSetConflicts (hd : ∀ e ∈ desired, e.WellFormed) (g : String) :
    (desiredSetConflicts rt (groupDesired rt (indexDesired desired))).lookup g =
      desiredSetConflict (desiredOf desired g) := by
  unfold desiredSetConflicts Runtime.range
  rw [lookup_foldl_range (fun _ es => desiredSetConflict es) g _ _
    (range_keys_nodup (rt.order_perm _) _), find?_range (rt.order_perm _), lookup_groupDesired hd]
  by_cases h : desiredOf desired g = []
  · rw [if_pos h, h]; rfl
  · rw [if_neg h]; simp

variable {ownerID : String} {cleanup : CleanupPolicy} {allowed : Endpoint → Bool}

/-- One step of the pass over the desired endpoints, seen at a single name. -/
def pickConflict (ownerID : String) (C : List Endpoint) (o : Option Operation) (e : Endpoint) :
    Option Operation :=
  match unownedConflict ownerID C e with
  | none => o
  | some candidate =>
    match o with
    | none => some candidate
    | some existing => if operationKey candidate < operationKey existing then some candidate else some existing

theorem unownedConflict_key (he : e.WellFormed) (h : unownedConflict ownerID C e = some op) :
    operationKey op = e.key ∧ op.type = .conflict ∧ op.desired = e := by
  unfold unownedConflict at h
  obtain ⟨c, -, rfl⟩ := Option.map_eq_some_iff.1 h
  simp [operationKey, he.name]

/-- The pass changes a name only at that name's endpoints. -/
theorem lookup_unownedConflictStep (g : String) (m : GoMap Operation) (e : Endpoint) :
    (unownedConflictStep (groupBy Endpoint.mutationGroupKey current) ownerID m e).lookup g =
      if e.mutationGroupKey = g then pickConflict ownerID (rowsOf current g) (m.lookup g) e else m.lookup g := by
  unfold unownedConflictStep
  simp only [slice_groupBy]
  by_cases hg : e.mutationGroupKey = g
  · subst hg
    rw [if_pos rfl]
    unfold pickConflict unownedConflict rowsOf
    cases unownedCNAMEConflict e (partitionOwned
        (List.filter (fun c => decide (c.mutationGroupKey = e.mutationGroupKey)) current) ownerID).2 with
    | none => rfl
    | some c =>
      simp only [Option.map_some]
      cases hm : m.lookup e.mutationGroupKey with
      | none => simp
      | some existing =>
        simp only
        split
        · simp
        · exact hm
  · rw [if_neg hg]
    -- another name's entry stays as it was
    have hset : ∀ op, (m.set e.mutationGroupKey op).lookup g = m.lookup g :=
      fun op => lookup_set_ne m op (Ne.symm hg)
    split
    · rfl
    · split
      · exact hset _
      · split
        · exact hset _
        · rfl

theorem lookup_unownedFold (g : String) (l : List Endpoint) (m : GoMap Operation) :
    (l.foldl (unownedConflictStep (groupBy Endpoint.mutationGroupKey current) ownerID) m).lookup g =
      (l.filter fun e => e.mutationGroupKey = g).foldl (pickConflict ownerID (rowsOf current g))
      (m.lookup g) := by
  induction l generalizing m with
  | nil => rfl
  | cons e l ih =>
    rw [foldl_cons, ih, lookup_unownedConflictStep]
    by_cases hg : e.mutationGroupKey = g
    · rw [filter_cons_of_pos (by simpa using hg), foldl_cons, if_pos hg]
    · rw [filter_cons_of_neg (by simpa using hg), if_neg hg]

/-- Once a conflict with a smallest key is held, it stays. -/
theorem foldl_pick_some :
    ∀ (l : List Endpoint), (∀ e ∈ l, e.WellFormed ∧ operationKey op ≤ e.key) →
      l.foldl (pickConflict ownerID C) (some op) = some op := by
  intro l
  induction l with
  | nil => intro _; rfl
  | cons e l ih =>
    intro h
    simp only [foldl_cons]
    have he := h e mem_cons_self
    have : pickConflict ownerID C (some op) e = some op := by
      unfold pickConflict
      cases hu : unownedConflict ownerID C e with
      | none => rfl
      | some candidate =>
        simp only
        rw [(unownedConflict_key he.1 hu).1, if_neg (not_lt.2 he.2)]
    rw [this]
    exact ih (fun f hf => h f (mem_cons_of_mem _ hf))

/-- Two steps commute: the held conflict is the one with the smallest key. -/
theorem pickConflict_comm {f : Endpoint} (he : e.WellFormed) (hf : f.WellFormed) (hne : e.key = f.key → e = f)
    (o : Option Operation) :
    pickConflict ownerID C (pickConflict ownerID C o e) f =
      pickConflict ownerID C (pickConflict ownerID C o f) e := by
  by_cases hef : e = f
  · rw [hef]
  have hkey : e.key ≠ f.key := fun h => hef (hne h)
  unfold pickConflict
  cases h1 : unownedConflict ownerID C e with
  | none => cases unownedConflict ownerID C f <;> rfl
  | some a =>
    cases h2 : unownedConflict ownerID C f with
    | none => rfl
    | some b =>
      have ka := (unownedConflict_key he h1).1
      have kb := (unownedConflict_key hf h2).1
      cases o with
      | none =>
        simp only [ka, kb]
        rcases lt_or_gt_of_ne hkey with h | h
        · rw [if_neg (not_lt.2 h.le), if_pos h]
        · rw [if_pos h, if_neg (not_lt.2 h.le)]
      | some x =>
        simp only [ka, kb]
        by_cases hx1 : e.key < operationKey x <;> by_cases hx2 : f.key < operationKey x <;>
          simp only [hx1, hx2, if_true, if_false, ka, kb]
        · rcases lt_or_gt_of_ne hkey with h | h
          · rw [if_neg (not_lt.2 h.le), if_pos h]
          · rw [if_pos h, if_neg (not_lt.2 h.le)]
        · rw [if_neg (fun h => hx2 (h.trans hx1))]
        · rw [if_neg (fun h => hx1 (h.trans hx2))]

/-- On a list sorted by key the pass keeps the first conflict. -/
theorem foldl_pick_none :
    ∀ (l : List Endpoint), (∀ e ∈ l, e.WellFormed) → l.Pairwise (fun a b => a.key ≤ b.key) →
      l.foldl (pickConflict ownerID C) none = l.findSome? (unownedConflict ownerID C) := by
  intro l
  induction l with
  | nil => intro _ _; rfl
  | cons e l ih =>
    intro hwf hs
    rw [pairwise_cons] at hs
    simp only [foldl_cons, findSome?_cons]
    unfold pickConflict
    cases hu : unownedConflict ownerID C e with
    | none => exact ih (fun f hf => hwf f (mem_cons_of_mem _ hf)) hs.2
    | some op =>
      apply foldl_pick_some
      intro f hf
      rw [(unownedConflict_key (hwf e mem_cons_self) hu).1]
      exact ⟨hwf f (mem_cons_of_mem _ hf), hs.1 f hf⟩

theorem wf_of_mem_desiredOf (hd : ∀ e ∈ desired, e.WellFormed) (he : e ∈ desiredOf desired g) : e.WellFormed :=
  wf_of_mem_desiredValues hd (mem_desiredOf.1 he).1

theorem desiredSetConflict_desired {D : List Endpoint} (h : desiredSetConflict D = some op) :
    D ≠ [] ∧ op.desired = D.headD {} ∧ op.type = .conflict := by
  unfold desiredSetConflict at h
  cases D with
  | nil => simp [desiredSetHasCNAMEConflict, desiredSetHasMultipleCNAMETargets, hasMultipleCNAMETargets] at h
  | cons e l =>
    split at h
    · cases h; simp
    · split at h
      · cases h; simp
      · simp at h

/-- **The conflicts of a name before the transitions.** -/
theorem lookup_unownedConflicts (hd : ∀ e ∈ desired, e.WellFormed) (g : String) :
    (unownedConflicts rt (indexDesired desired) (groupBy Endpoint.mutationGroupKey current) ownerID
      (desiredSetConflicts rt (groupDesired rt (indexDesired desired)))).lookup g =
      nameConflict ownerID (desiredOf desired g) (rowsOf current g) := by
  unfold unownedConflicts
  rw [lookup_unownedFold, lookup_desiredSetConflicts hd]
  unfold nameConflict
  have hp : (((rt.range .unownedCNAME (indexDesired desired)).map Prod.snd).filter
      fun e => e.mutationGroupKey = g).Perm (desiredOf desired g) :=
    ((rangeValues_perm rt .unownedCNAME).filter _).trans (desiredOf_perm g).symm
  have hcomm : ∀ e ∈ ((rt.range .unownedCNAME (indexDesired desired)).map Prod.snd).filter
        (fun e => decide (e.mutationGroupKey = g)),
      ∀ f ∈ ((rt.range .unownedCNAME (indexDesired desired)).map Prod.snd).filter
        (fun e => decide (e.mutationGroupKey = g)), ∀ o,
      pickConflict ownerID (rowsOf current g) (pickConflict ownerID (rowsOf current g) o e) f =
        pickConflict ownerID (rowsOf current g) (pickConflict ownerID (rowsOf current g) o f) e := by
    intro e he f hf o
    have he' := hp.mem_iff.1 he
    have hf' := hp.mem_iff.1 hf
    exact pickConflict_comm (wf_of_mem_desiredOf hd he') (wf_of_mem_desiredOf hd hf')
      (desiredValues_inj hd (mem_desiredOf.1 he').1 (mem_desiredOf.1 hf').1) o
  rw [hp.foldl_eq' hcomm]
  have hwf : ∀ e ∈ desiredOf desired g, e.WellFormed := fun e he => wf_of_mem_desiredOf hd he
  have hsorted := @desiredOf_sorted desired g
  cases hs : desiredSetConflict (desiredOf desired g) with
  | none => simpa using foldl_pick_none _ hwf hsorted
  | some op =>
    obtain ⟨hne, hdes, -⟩ := desiredSetConflict_desired hs
    rw [Option.some_or]
    apply foldl_pick_some
    cases hD : desiredOf desired g with
    | nil => exact absurd hD hne
    | cons x l =>
      rw [hD] at hwf hsorted hdes
      simp only [headD_cons] at hdes
      have hk : operationKey op = x.key := by
        unfold operationKey; rw [hdes, if_pos (hwf x mem_cons_self).name]
      rw [pairwise_cons] at hsorted
      intro e he
      rw [hk]
      refine ⟨hwf e he, ?_⟩
      rcases mem_cons.1 he with rfl | he
      · exact le_rfl
      · exact hsorted.1 e he

theorem nameConflict_type (hd : ∀ e ∈ desired, e.WellFormed)
    (h : nameConflict ownerID (desiredOf desired g) C = some op) :
    op.type = .conflict ∧ op.desired ∈ desiredOf desired g := by
  unfold nameConflict at h
  rw [Option.or_eq_some_iff] at h
  rcases h with h | ⟨-, h⟩
  · obtain ⟨hne, hdes, ht⟩ := desiredSetConflict_desired h
    refine ⟨ht, ?_⟩
    rw [hdes]
    cases hD : desiredOf desired g with
    | nil => exact absurd hD hne
    | cons x l => simp
  · obtain ⟨e, he, h⟩ := exists_of_findSome?_eq_some h
    obtain ⟨-, h1, h2⟩ := unownedConflict_key (wf_of_mem_desiredOf hd he) h
    exact ⟨h1, h2 ▸ he⟩

@[simp] theorem cnameTransition_nil (C L : List Endpoint) :
    cnameTransition [] C L ownerID cleanup allowed = none := by
  simp [cnameTransition, needsCNAMETargetReplacement, hasCNAMETypeTransition]

/-- The rows of a logical record lie at its DNS owner name. -/
theorem filter_logical_rowsOf (hc : ∀ c ∈ current, c.WellFormed) (he : e.WellFormed) :
    (rowsOf current e.mutationGroupKey).filter (fun c => c.logicalKey = e.logicalKey) =
      current.filter fun c => c.logicalKey = e.logicalKey := by
  unfold rowsOf
  rw [filter_filter]
  apply filter_congr
  intro c hcm
  by_cases h : c.logicalKey = e.logicalKey
  · simp [h, group_of_logicalKey (hc c hcm) he h]
  · simp [h]

theorem filter_key_rowsOf (hc : ∀ c ∈ current, c.WellFormed) (he : e.WellFormed) :
    (rowsOf current e.mutationGroupKey).filter (fun c => c.key = e.key) =
      current.filter fun c => c.key = e.key := by
  unfold rowsOf
  rw [filter_filter]
  apply filter_congr
  intro c hcm
  by_cases h : c.key = e.key
  · simp [h, group_of_key (hc c hcm) he h]
  · simp [h]

theorem lookup_recordTransition (st : GoMap Operation × GoMap Operation) (k g : String) (t : Option Operation) :
    let st' := recordTransition st k t
    st'.1.lookup g = (if k = g then
      (st.1.lookup g).or (t.filter fun op => op.type ≠ .replace) else st.1.lookup g) ∧
    st'.2.lookup g = (if k = g ∧ st.1.lookup g = none then
      (t.filter fun op => op.type = .replace).or (st.2.lookup g) else st.2.lookup g) := by
  unfold recordTransition
  by_cases hk : k = g
  · subst hk
    cases hs : st.1.lookup k with
    | some x => simp [hs]
    | none =>
      cases t with
      | none => simp [hs]
      | some op => by_cases hr : op.type = .replace <;> simp [hs, hr, Option.filter]
  · have hset : ∀ (m : GoMap Operation) op, (m.set k op).lookup g = m.lookup g :=
      fun m op => lookup_set_ne m op (Ne.symm hk)
    cases hs : st.1.lookup k with
    | some x => simp [hk]
    | none =>
      cases t with
      | none => simp [hk]
      | some op => by_cases hr : op.type = .replace <;> simp [hk, hr, hset]

/-- The pass over the names, seen at a single name. -/
theorem lookup_transitionFold (tr : String × List Endpoint → Option Operation) (g : String) :
    ∀ (l : List (String × List Endpoint)) (st : GoMap Operation × GoMap Operation),
      (l.map Prod.fst).Nodup →
      let st' := l.foldl (fun st p => recordTransition st p.1 (tr p)) st
      let t := (l.find? fun p => p.1 = g).bind tr
      st'.1.lookup g = (st.1.lookup g).or (t.filter fun op => op.type ≠ .replace) ∧
      st'.2.lookup g = if st.1.lookup g = none then (t.filter fun op => op.type = .replace).or (st.2.lookup g)
        else st.2.lookup g := by
  intro l
  induction l with
  | nil => intro st _; simp
  | cons p l ih =>
    intro st hnd
    simp only [map_cons, nodup_cons] at hnd
    obtain ⟨h1, h2⟩ := lookup_recordTransition st p.1 g (tr p)
    obtain ⟨i1, i2⟩ := ih (recordTransition st p.1 (tr p)) hnd.2
    simp only [foldl_cons]
    rw [i1, i2, h1, h2]
    by_cases hk : p.1 = g
    · have hnone : l.find? (fun q => decide (q.1 = g)) = none := by
        rw [find?_eq_none]
        intro q hq hqp
        exact hnd.1 (mem_map.2 ⟨q, hq, by rw [hk]; simpa using hqp⟩)
      rw [hnone, find?_cons_of_pos (by simpa using hk)]
      cases hs : st.1.lookup g with
      | some x => simp [hk]
      | none => cases ht : tr p with
        | none => simp [hk, ht]
        | some op => by_cases hr : op.type = .replace <;> simp [hk, hr, ht, Option.filter]
    · rw [find?_cons_of_neg (by simpa using hk)]
      simp [hk]

/-- **The conflicts and replacements of a name**, whatever the iteration orders. -/
theorem lookup_cnameTransitions (hd : ∀ e ∈ desired, e.WellFormed) (hc : ∀ c ∈ current, c.WellFormed)
    (g : String) :
    let r := cnameTransitions rt (groupDesired rt (indexDesired desired))
      (groupBy Endpoint.mutationGroupKey current) (groupBy Endpoint.logicalKey current) ownerID cleanup allowed
      (unownedConflicts rt (indexDesired desired) (groupBy Endpoint.mutationGroupKey current) ownerID
        (desiredSetConflicts rt (groupDesired rt (indexDesired desired))))
    let d := nameDecision ownerID cleanup allowed (desiredOf desired g) (rowsOf current g)
    r.1.lookup g = d.filter (fun op => op.type ≠ .replace) ∧ r.2.lookup g = d.filter fun op =>
      op.type = .replace := by
  intro r d
  have hfold := lookup_transitionFold (fun p => cnameTransition p.2
      ((groupBy Endpoint.mutationGroupKey current).slice p.1)
      ((groupBy Endpoint.logicalKey current).slice (p.2.headD {}).logicalKey) ownerID cleanup allowed) g
    (rt.range .transitions (groupDesired rt (indexDesired desired)))
    (unownedConflicts rt (indexDesired desired) (groupBy Endpoint.mutationGroupKey current) ownerID
        (desiredSetConflicts rt (groupDesired rt (indexDesired desired))), ∅)
    (range_keys_nodup (rt.order_perm _) _)
  simp only [Runtime.range] at hfold
  rw [find?_range (rt.order_perm _), lookup_groupDesired hd, lookup_unownedConflicts hd] at hfold
  have ht : (Option.map (fun v => (g, v))
      (if desiredOf desired g = [] then none else some (desiredOf desired g))).bind
      (fun p => cnameTransition p.2 ((groupBy Endpoint.mutationGroupKey current).slice p.1)
        ((groupBy Endpoint.logicalKey current).slice (p.2.headD {}).logicalKey) ownerID cleanup allowed) =
      cnameTransition (desiredOf desired g) (rowsOf current g)
        ((rowsOf current g).filter fun c => c.logicalKey = ((desiredOf desired g).headD {}).logicalKey)
        ownerID cleanup allowed := by
    cases hD : desiredOf desired g with
    | nil => simp
    | cons x l =>
      rw [if_neg (by simp)]
      have hx : x ∈ desiredOf desired g := by rw [hD]; exact mem_cons_self
      have hL := filter_logical_rowsOf hc (wf_of_mem_desiredOf hd hx)
      rw [(mem_desiredOf.1 hx).2] at hL
      simp only [Option.map_some, Option.bind_some, slice_groupBy]
      change cnameTransition (x :: l) (rowsOf current g) (current.filter fun c => c.logicalKey = x.logicalKey)
        ownerID cleanup allowed = cnameTransition (x :: l) (rowsOf current g)
          ((rowsOf current g).filter fun c => c.logicalKey = x.logicalKey) ownerID cleanup allowed
      rw [hL]
  rw [ht] at hfold
  have h1 : r.1.lookup g = _ := hfold.1
  have h2 : r.2.lookup g = _ := hfold.2
  rw [h1, h2]
  simp only [d, nameDecision]
  cases hn : nameConflict ownerID (desiredOf desired g) (rowsOf current g) with
  | none => simp
  | some op => simp [(nameConflict_type hd hn).1, Option.filter]

end FortigateDns
