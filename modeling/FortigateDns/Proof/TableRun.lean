import FortigateDns.Proof.Coverage

/-!
# Executing operations on a table

A run that changes each row at most once has a closed form: `applyAll_eq` says what it leaves
of every old row (`rowAfter`) and lists the new rows (`newRow`). Runs keep a table well formed
(`applyAll_ok`), and a run of planned operations acts name by name (`rowsOf_applyAll`).
-/

namespace FortigateDns

open Go GoMap List

variable {c : Endpoint} {ops : List Operation} {p : Operation × String}

/-- What the operations of a run leave of a row. -/
def rowAfter (ops : List Operation) (c : Endpoint) : Option Endpoint :=
  match ops.find? fun op => op.type.mutatesRow && decide (op.current.providerID = c.providerID) with
  | none => some c
  | some op => op.effect c

/-- The row a step creates. -/
def newRow (ownerID : String) (p : Operation × String) : Option Endpoint :=
  if p.1.type = .create then some (createdRow ownerID p.2 p.1.desired) else none

variable {rt : Runtime} {desired table : List Endpoint} {ownerID : String} {cleanup : CleanupPolicy}
variable {allowed : Endpoint → Bool} {g : String} {op : Operation} {run : List (Operation × String)}

theorem overwrite_wf {d : Endpoint} (hd : d.WellFormed) : (overwrite c d).WellFormed :=
  WellFormed.of_record hd rfl rfl rfl rfl

theorem createdRow_wf {id : String} {d : Endpoint} (hd : d.WellFormed) : (createdRow ownerID id d).WellFormed :=
  WellFormed.of_record hd rfl rfl rfl rfl

theorem effect_providerID {r : Endpoint} (h : op.effect c = some r) : r.providerID = c.providerID := by
  unfold Operation.effect at h
  split at h
  · split at h
    · simp at h
    · cases h; rfl
  · cases h; rfl

theorem effect_of_ne (h : op.type.mutatesRow = true → c.providerID ≠ op.current.providerID) :
    op.effect c = some c := by
  unfold Operation.effect
  exact if_neg fun hc => h hc.1 hc.2

/-- A row that no operation is about stays. -/
theorem rowAfter_untouched (h : ∀ op ∈ ops, op.type.mutatesRow = true → op.current.providerID ≠ c.providerID) :
    rowAfter ops c = some c := by
  unfold rowAfter
  have : ops.find? (fun op => op.type.mutatesRow && decide (op.current.providerID = c.providerID)) = none := by
    rw [find?_eq_none]
    intro op hop hc
    simp only [Bool.and_eq_true, decide_eq_true_eq] at hc
    exact h op hop hc.1 hc.2
  rw [this]

theorem rowAfter_cons_mutating (hm : op.type.mutatesRow = true)
    (hrest : ∀ x ∈ ops, x.type.mutatesRow = true → x.current.providerID ≠ op.current.providerID) :
    (op.effect c).bind (rowAfter ops) = rowAfter (op :: ops) c := by
  by_cases hc : op.current.providerID = c.providerID
  · have h1 : rowAfter (op :: ops) c = op.effect c := by
      unfold rowAfter
      rw [find?_cons_of_pos (by simp [hm, hc])]
    rw [h1]
    cases he : op.effect c with
    | none => rfl
    | some r =>
      rw [Option.bind_some]
      apply rowAfter_untouched
      intro x hx hxm
      rw [effect_providerID he, ← hc]
      exact hrest x hx hxm
  · rw [effect_of_ne (fun _ h => hc h.symm), Option.bind_some]
    unfold rowAfter
    rw [find?_cons_of_neg (by simp [hc])]

theorem rowAfter_cons_other (hm : op.type.mutatesRow = false) : rowAfter (op :: ops) c = rowAfter ops c := by
  unfold rowAfter
  rw [find?_cons_of_neg (by simp [hm])]

/-- The operations of a run that change rows. -/
abbrev mutations (run : List (Operation × String)) : List Operation :=
  (run.map Prod.fst).filter fun op => op.type.mutatesRow

/-- **A run that changes each row at most once, in closed form.** -/
theorem applyAll_eq :
    ∀ (run : List (Operation × String)) (table : List Endpoint),
      ((mutations run).map fun op => op.current.providerID).Nodup →
      (∀ op ∈ mutations run, op.current.providerID ∈ table.map Endpoint.providerID) →
      FreshIDs ownerID table run →
      applyAll ownerID table run =
        table.filterMap (rowAfter (run.map Prod.fst)) ++ run.filterMap (newRow ownerID) := by
  intro run
  induction run with
  | nil =>
    intro table _ _ _
    have : ∀ c ∈ table, rowAfter [] c = some c := fun c _ => rfl
    rw [map_nil, filterMap_congr this, filterMap_some]
    simp [applyAll]
  | cons p run ih =>
    obtain ⟨op, id⟩ := p
    intro table hnd hin hfresh
    have hstep : applyAll ownerID table ((op, id) :: run) =
        applyAll ownerID (applyOperation ownerID table op id) run := rfl
    rw [hstep]
    obtain ⟨hf, hfresh'⟩ := hfresh
    by_cases hm : op.type.mutatesRow = true
    · -- the row of `op` is not touched again
      simp only [mutations, map_cons] at hnd hin
      rw [filter_cons_of_pos (by exact hm)] at hnd hin
      rw [map_cons, nodup_cons] at hnd
      have hnc : op.type ≠ .create := by intro h; rw [h] at hm; simp [OperationType.mutatesRow] at hm
      have hrest : ∀ x ∈ run.map Prod.fst, x.type.mutatesRow = true →
          x.current.providerID ≠ op.current.providerID := by
        intro x hx hxm heq
        exact hnd.1 (mem_map.2 ⟨x, mem_filter.2 ⟨hx, hxm⟩, heq⟩)
      have happ : applyOperation ownerID table op id = table.filterMap op.effect := by
        unfold applyOperation; rw [if_neg hnc]
      rw [ih _ hnd.2 _ hfresh', happ, filterMap_filterMap]
      · rw [filterMap_cons_none (by simp [newRow, hnc])]
        congr 1
        apply filterMap_congr
        intro c _
        exact rowAfter_cons_mutating hm hrest
      · intro x hx
        obtain ⟨c, hc, hcid⟩ := mem_map.1 (hin x (mem_cons_of_mem _ hx))
        rw [happ, mem_map]
        refine ⟨c, mem_filterMap.2 ⟨c, hc, effect_of_ne fun _ h => ?_⟩, hcid⟩
        have := mem_filter.1 hx
        exact hrest x this.1 this.2 (hcid.symm.trans h)
    · have hm' : op.type.mutatesRow = false := by simpa using hm
      simp only [mutations, map_cons] at hnd hin
      rw [filter_cons_of_neg (by simpa using hm)] at hnd hin
      have hrow : ∀ c ∈ table, rowAfter ((op :: run.map Prod.fst)) c = rowAfter (run.map Prod.fst) c :=
        fun c _ => rowAfter_cons_other hm'
      by_cases hcr : op.type = .create
      · have happ : applyOperation ownerID table op id = table ++ [createdRow ownerID id op.desired] := by
          unfold applyOperation; rw [if_pos hcr]
        have hin' : ∀ x ∈ mutations run,
            x.current.providerID ∈ (applyOperation ownerID table op id).map Endpoint.providerID := by
          intro x hx
          rw [happ, map_append]
          exact mem_append_left _ (hin x hx)
        -- later operations are about rows that were there before
        have hnew : rowAfter (run.map Prod.fst) (createdRow ownerID id op.desired) =
            some (createdRow ownerID id op.desired) := by
          apply rowAfter_untouched
          intro x hx hxm heq
          have hx' := hin x (mem_filter.2 ⟨hx, hxm⟩)
          rw [heq] at hx'
          exact (hf hcr).2 hx'
        have hrow' : newRow ownerID (op, id) = some (createdRow ownerID id op.desired) := by
          simp [newRow, hcr]
        rw [ih _ hnd hin' hfresh', happ, filterMap_append, map_cons, filterMap_congr hrow,
          filterMap_cons_some hrow', filterMap_cons_some hnew, filterMap_nil, append_assoc]
        rfl
      · have happ : applyOperation ownerID table op id = table := by
          unfold applyOperation
          rw [if_neg hcr]
          have : ∀ c ∈ table, op.effect c = some c := fun c _ => effect_of_ne fun h => absurd h hm
          rw [filterMap_congr this, filterMap_some]
        have hrow' : newRow ownerID (op, id) = none := by simp [newRow, hcr]
        rw [ih _ hnd (by rw [happ]; exact hin) hfresh', happ, map_cons, filterMap_congr hrow,
          filterMap_cons_none hrow']

theorem ids_filterMap_sublist {f : Endpoint → Option Endpoint}
    (hf : ∀ c r, f c = some r → r.providerID = c.providerID) (l : List Endpoint) :
    ((l.filterMap f).map Endpoint.providerID).Sublist (l.map Endpoint.providerID) := by
  induction l with
  | nil => exact List.Sublist.refl _
  | cons c l ih =>
    cases h : f c with
    | none => rw [filterMap_cons_none h]; exact ih.cons _
    | some r =>
      rw [filterMap_cons_some h, map_cons, map_cons, hf c r h]
      exact ih.cons_cons _

theorem applyOperation_ok {id : String} (ht : TableOK table)
    (hwf : op.type ≠ .conflict → op.type ≠ .delete → op.desired.WellFormed)
    (hfresh : op.type = .create → trimSpace id ≠ "" ∧ id ∉ table.map Endpoint.providerID) :
    TableOK (applyOperation ownerID table op id) := by
  unfold applyOperation
  split
  · rename_i hcr
    obtain ⟨hblank, hnew⟩ := hfresh hcr
    have hwf' := hwf (by simp [hcr]) (by simp [hcr])
    refine ⟨?_, ?_, ?_⟩
    · intro c hc
      rcases mem_append.1 hc with hc | hc
      · exact ht.wf c hc
      · rw [mem_singleton.1 hc]; exact createdRow_wf hwf'
    · rw [map_append, nodup_append]
      refine ⟨ht.ids, nodup_singleton _, ?_⟩
      intro a ha b hb hab
      rw [mem_singleton.1 hb] at hab
      rw [hab] at ha
      exact hnew ha
    · intro c hc
      rcases mem_append.1 hc with hc | hc
      · exact ht.nonBlank c hc
      · rw [mem_singleton.1 hc]
        simpa [hasProviderID, createdRow] using hblank
  · have hid : ∀ c r, op.effect c = some r → r.providerID = c.providerID := fun c r h => effect_providerID h
    refine ⟨?_, ?_, ?_⟩
    · intro r hr
      obtain ⟨c, hc, hcr⟩ := mem_filterMap.1 hr
      unfold Operation.effect at hcr
      split at hcr
      · rename_i hm
        split at hcr
        · simp at hcr
        · rename_i hdel
          cases hcr
          exact overwrite_wf (hwf (by intro h; rw [h] at hm; simp [OperationType.mutatesRow] at hm) hdel)
      · cases hcr; exact ht.wf _ hc
    · exact ht.ids.sublist (ids_filterMap_sublist hid table)
    · intro r hr
      obtain ⟨c, hc, hcr⟩ := mem_filterMap.1 hr
      unfold hasProviderID
      rw [hid c r hcr]
      exact ht.nonBlank c hc

theorem applyAll_ok (hwf : ∀ p ∈ run, p.1.type ≠ .conflict → p.1.type ≠ .delete → p.1.desired.WellFormed)
    (ht : TableOK table) (hfresh : FreshIDs ownerID table run) : TableOK (applyAll ownerID table run) := by
  induction run generalizing table with
  | nil => exact ht
  | cons p run ih =>
    obtain ⟨op, id⟩ := p
    exact ih (fun q hq => hwf q (mem_cons_of_mem _ hq))
      (applyOperation_ok ht (hwf (op, id) mem_cons_self) hfresh.1) hfresh.2

/-- Some of the planned operations, in order, with the IDs the device gives to new rows. -/
structure PlannedRun (rt : Runtime) (desired table : List Endpoint) (ownerID : String) (cleanup : CleanupPolicy)
    (allowed : Endpoint → Bool) (run : List (Operation × String)) : Prop where
  planned : (run.map Prod.fst).Sublist (buildWithCleanupScope rt desired table ownerID cleanup allowed)
  fresh : FreshIDs ownerID table run

section

variable (hd : ∀ e ∈ desired, e.WellFormed) (ht : TableOK table)
  (hrun : PlannedRun rt desired table ownerID cleanup allowed run)

include hd ht hrun

theorem PlannedRun.mem (hp : p ∈ run) :
    p.1 ∈ groupPlan ownerID cleanup allowed (desiredOf desired p.1.group) (rowsOf table p.1.group) :=
  (mem_plan hd ht.wf).1 (hrun.planned.subset (mem_map_of_mem hp))

theorem PlannedRun.desired_wf (hp : p ∈ run) (h1 : p.1.type ≠ .conflict) (h2 : p.1.type ≠ .delete) :
    p.1.desired.WellFormed ∧ p.1.desired.mutationGroupKey = p.1.group := by
  rcases (groupPlan_parts (nameOK hd ht _) (hrun.mem hd ht hp) h1).1 with ⟨h, -⟩ | h
  · exact absurd h h2
  · exact h

theorem PlannedRun.table_ok : TableOK (applyAll ownerID table run) :=
  applyAll_ok (fun _ hp h1 h2 => (hrun.desired_wf hd ht hp h1 h2).1) ht hrun.fresh

theorem PlannedRun.row (hp : p ∈ run) (hm : p.1.type.mutatesRow = true) :
    p.1.current ∈ table ∧ p.1.current.mutationGroupKey = p.1.group ∧ ownedBy p.1.current ownerID = true := by
  obtain ⟨h1, h2, h3, -⟩ := plan_row hd ht.wf (hrun.planned.subset (mem_map_of_mem hp)) hm
  exact ⟨h1, h2, h3⟩

theorem PlannedRun.applyAll_eq : applyAll ownerID table run =
    table.filterMap (rowAfter (run.map Prod.fst)) ++ run.filterMap (newRow ownerID) := by
  have hin : ∀ op ∈ mutations run, op.current ∈ table := by
    intro op hop
    obtain ⟨hop, hm⟩ := mem_filter.1 hop
    obtain ⟨p, hp, rfl⟩ := mem_map.1 hop
    exact (hrun.row hd ht hp hm).1
  apply FortigateDns.applyAll_eq run table _ (fun op hop => mem_map_of_mem (hin op hop)) hrun.fresh
  have hnd : ((mutations run).map Operation.current).Nodup :=
    (plan_current_nodup hd ht).sublist ((hrun.planned.filter _).map _)
  have := hnd.map_on (f := Endpoint.providerID) (fun a ha b hb h => by
    obtain ⟨x, hx, rfl⟩ := mem_map.1 ha
    obtain ⟨y, hy, rfl⟩ := mem_map.1 hb
    exact inj_on_of_nodup_map ht.ids (hin x hx) (hin y hy) h)
  rwa [map_map] at this

/-- What a planned run leaves of a row: the row as it was, or what the one operation about it
makes of it. -/
theorem PlannedRun.rowAfter_cases (hc : c ∈ table) :
    rowAfter (run.map Prod.fst) c = some c ∧
        (∀ p ∈ run, p.1.type.mutatesRow = true → p.1.current ≠ c) ∨
      ∃ p ∈ run, p.1.type.mutatesRow = true ∧ p.1.current = c ∧
        rowAfter (run.map Prod.fst) c =
          if p.1.type = .delete then none else some (overwrite c p.1.desired) := by
  cases hf : (run.map Prod.fst).find? fun op => op.type.mutatesRow && decide
    (op.current.providerID = c.providerID) with
  | none =>
    left
    refine ⟨by unfold rowAfter; rw [hf], ?_⟩
    intro p hp hm hcur
    have := find?_eq_none.1 hf p.1 (mem_map_of_mem hp)
    simp [hm, hcur] at this
  | some op =>
    right
    have hop := mem_of_find?_eq_some hf
    have hcond := find?_some hf
    simp only [Bool.and_eq_true, decide_eq_true_eq] at hcond
    obtain ⟨p, hp, rfl⟩ := mem_map.1 hop
    have hcur : p.1.current = c :=
      inj_on_of_nodup_map ht.ids (hrun.row hd ht hp hcond.1).1 hc hcond.2
    refine ⟨p, hp, hcond.1, hcur, ?_⟩
    unfold rowAfter
    rw [hf]
    simp only
    unfold Operation.effect
    rw [if_pos ⟨hcond.1, hcond.2.symm⟩]

theorem PlannedRun.rowAfter_group {r : Endpoint} (hc : c ∈ table) (h : rowAfter (run.map Prod.fst) c = some r) :
    r.mutationGroupKey = c.mutationGroupKey := by
  rcases hrun.rowAfter_cases hd ht hc with ⟨h1, -⟩ | ⟨p, hp, hm, hcur, h1⟩
  · rw [h1] at h; cases h; rfl
  · rw [h1] at h
    split at h
    · simp at h
    · rename_i hdel
      cases h
      have hnc : p.1.type ≠ .conflict := by intro h; rw [h] at hm; simp [OperationType.mutatesRow] at hm
      obtain ⟨-, hg⟩ := hrun.desired_wf hd ht hp hnc hdel
      calc (overwrite c p.1.desired).mutationGroupKey = p.1.desired.mutationGroupKey := rfl
        _ = p.1.group := hg
        _ = c.mutationGroupKey := by rw [← (hrun.row hd ht hp hm).2.1, hcur]

/-- **A planned run acts name by name.** -/
theorem PlannedRun.rowsOf_applyAll (g : String) :
    rowsOf (applyAll ownerID table run) g =
      (rowsOf table g).filterMap (rowAfter (run.map Prod.fst)) ++
        (run.filterMap (newRow ownerID)).filter fun c => c.mutationGroupKey = g := by
  unfold rowsOf
  rw [hrun.applyAll_eq hd ht, filter_append]
  congr 1
  exact filter_filterMap_group g (fun c hc r h => hrun.rowAfter_group hd ht hc h)

end

end FortigateDns
