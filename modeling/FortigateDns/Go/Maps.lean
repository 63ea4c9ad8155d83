import Mathlib.Data.List.AList
import Mathlib.Data.List.Perm.Basic

/-!
# Go maps with string keys

A Go map is an association list with distinct keys. Ranging over it visits its keys in an
arbitrary order, which is a parameter here: `range order m` lists the entries in the order
the permutation `order` puts the keys in. A map that is filled by one pass over a list has
a closed form: `slice_groupBy` for slices collected per key, `lookup_foldl_range` for a pass
over another map that writes at most the key it visits. Ranging over the collected slices
visits the list again, in some order (`flatMap_range_groupBy`).
-/

namespace Go

open List

/-- A Go `map[string]β`. -/
abbrev GoMap (β : Type) := AList (fun _ : String => β)

namespace GoMap

variable {α β γ : Type}

/-- `m[k] = v`. -/
def set (m : GoMap β) (k : String) (v : β) : GoMap β := AList.insert k v m

/-- `m[k]` for a map of slices, whose zero value is the empty slice. -/
def slice (m : GoMap (List β)) (k : String) : List β := (m.lookup k).getD []

/-- `m[k] = append(m[k], v)`. -/
def appendAt (m : GoMap (List β)) (k : String) (v : β) : GoMap (List β) :=
  m.set k (m.slice k ++ [v])

/-- One pass over `l` that appends every element under its key. -/
def groupBy (f : α → String) (l : List α) : GoMap (List α) :=
  l.foldl (fun m a => m.appendAt (f a) a) ∅

/-- `for k, v := range m`, with the iteration order as a parameter. -/
def range (order : List String → List String) (m : GoMap β) : List (String × β) :=
  (order m.keys).filterMap fun k => (m.lookup k).map fun v => (k, v)

@[simp] theorem lookup_set_self (m : GoMap β) (k : String) (v : β) : (m.set k v).lookup k = some v :=
  AList.lookup_insert m

theorem lookup_set_ne (m : GoMap β) {k k' : String} (v : β) (h : k' ≠ k) :
    (m.set k v).lookup k' = m.lookup k' := AList.lookup_insert_ne h

theorem lookup_set (m : GoMap β) (k k' : String) (v : β) :
    (m.set k v).lookup k' = if k' = k then some v else m.lookup k' := by
  by_cases h : k' = k
  · subst h; simp
  · rw [lookup_set_ne m v h, if_neg h]

/-- Every value of the map has a property. -/
def ForallValues (P : β → Prop) (m : GoMap β) : Prop := ∀ k v, m.lookup k = some v → P v

theorem forallValues_empty (P : β → Prop) : ForallValues P ∅ := by
  intro k v h
  simp at h

theorem ForallValues.set {P : β → Prop} {m : GoMap β} (h : ForallValues P m) (k : String) {v : β} (hv : P v) :
    ForallValues P (m.set k v) := by
  intro k' v' hlook
  rw [lookup_set] at hlook
  split at hlook
  · rw [← Option.some.inj hlook]; exact hv
  · exact h k' v' hlook

theorem slice_appendAt (m : GoMap (List β)) (k k' : String) (v : β) :
    (m.appendAt k v).slice k' = if k' = k then m.slice k' ++ [v] else m.slice k' := by
  unfold appendAt slice
  rw [lookup_set]
  split
  · rename_i h; subst h; rfl
  · rfl

/-- The slice a pass over `l` collects under `k` is the part of `l` with that key. -/
theorem slice_foldl (f : α → String) (k : String) :
    ∀ (l : List α) (m : GoMap (List α)),
      (l.foldl (fun m a => m.appendAt (f a) a) m).slice k = m.slice k ++ l.filter (fun a => f a = k) := by
  intro l
  induction l with
  | nil => intro m; simp
  | cons a l ih =>
    intro m
    simp only [foldl_cons]
    rw [ih, slice_appendAt]
    by_cases h : f a = k
    · subst h; simp
    · rw [if_neg (fun h' => h h'.symm), filter_cons_of_neg (by simpa using h)]

theorem slice_groupBy (f : α → String) (l : List α) (k : String) :
    (groupBy f l).slice k = l.filter (fun a => f a = k) := by
  unfold groupBy
  rw [slice_foldl]
  simp [slice]

/-- A pass over `l` that collects slices writes exactly the keys of `l`. -/
theorem lookup_groupBy (f : α → String) (l : List α) (k : String) :
    (groupBy f l).lookup k =
      if k ∈ l.map f then some (l.filter (fun a => f a = k)) else none := by
  have hiff : ∀ (l : List α) (m : GoMap (List α)),
      ((l.foldl (fun m a => m.appendAt (f a) a) m).lookup k).isSome ↔
        (m.lookup k).isSome ∨ k ∈ l.map f := by
    intro l
    induction l with
    | nil => intro m; simp
    | cons a l ih =>
      intro m
      simp only [foldl_cons]
      rw [ih]
      unfold appendAt
      rw [lookup_set]
      by_cases h : k = f a <;> simp [h]
  have hslice := slice_groupBy f l k
  have hsome := hiff l ∅
  unfold slice at hslice
  change ((groupBy f l).lookup k).isSome ↔ _ at hsome
  cases hl : (groupBy f l).lookup k with
  | none => rw [hl] at hsome; simp at hsome ⊢; exact hsome
  | some v =>
    rw [hl] at hsome hslice
    simp only [Option.isSome_some, true_iff] at hsome
    rw [if_pos (by simpa using hsome), ← hslice]; rfl

variable {order : List String → List String}

/-- A range visits exactly the entries of the map. -/
theorem mem_range (hord : ∀ l, (order l).Perm l) (m : GoMap β) {k : String} {v : β} :
    (k, v) ∈ m.range order ↔ m.lookup k = some v := by
  unfold range
  simp only [mem_filterMap, Option.map_eq_some_iff, Prod.mk.injEq]
  constructor
  · rintro ⟨k', -, v', hv, rfl, rfl⟩; exact hv
  · intro h
    refine ⟨k, (hord _).mem_iff.2 ?_, v, h, rfl, rfl⟩
    rw [← AList.mem_keys, ← AList.lookup_isSome, h]; rfl

/-- The keys a range visits are the keys of the map, each once. -/
theorem range_keys (order : List String → List String) (hord : ∀ l, (order l).Perm l) (m : GoMap β) :
    (m.range order).map Prod.fst = order m.keys := by
  unfold range
  rw [map_filterMap]
  have h : ∀ k ∈ order m.keys,
      ((m.lookup k).map fun v => (k, v)).map Prod.fst = some k := by
    intro k hk
    have hk' : k ∈ m := AList.mem_keys.2 ((hord _).mem_iff.1 hk)
    obtain ⟨v, hv⟩ := Option.isSome_iff_exists.1 (AList.lookup_isSome.2 hk')
    simp [hv]
  rw [filterMap_congr h, filterMap_some]

theorem range_keys_nodup (hord : ∀ l, (order l).Perm l) (m : GoMap β) : ((m.range order).map Prod.fst).Nodup := by
  rw [range_keys order hord]
  exact (hord _).nodup_iff.2 m.keys_nodup

/-- Two iteration orders visit the same entries. -/
theorem range_perm {order' : List String → List String} (hord : ∀ l, (order l).Perm l)
    (hord' : ∀ l, (order' l).Perm l) (m : GoMap β) : (m.range order).Perm (m.range order') :=
  ((hord _).trans (hord' _).symm).filterMap _

/-- A pass over a map that writes at most the key it visits, by a rule `f` that reads the
visited entry only. -/
theorem lookup_foldl_range (f : String → β → Option γ) (k : String) :
    ∀ (l : List (String × β)) (m : GoMap γ), (l.map Prod.fst).Nodup →
      (l.foldl (fun m (p : String × β) => ((f p.1 p.2).map (m.set p.1)).getD m) m).lookup k =
        ((l.find? (fun p => p.1 = k)).bind fun p => f p.1 p.2).or (m.lookup k) := by
  intro l
  induction l with
  | nil => intro m _; simp
  | cons p l ih =>
    intro m hnd
    simp only [map_cons, nodup_cons] at hnd
    simp only [foldl_cons]
    rw [ih _ hnd.2]
    by_cases hk : p.1 = k
    · subst hk
      have hnone : l.find? (fun q => decide (q.1 = p.1)) = none := by
        rw [find?_eq_none]
        intro q hq hqp
        exact hnd.1 (mem_map.2 ⟨q, hq, by simpa using hqp⟩)
      rw [hnone, find?_cons_of_pos (by simp)]
      cases hf : f p.1 p.2 with
      | none => simp [hf]
      | some w => simp [hf]
    · rw [find?_cons_of_neg (by simpa using hk)]
      congr 1
      cases hf : f p.1 p.2 with
      | none => rfl
      | some w => exact lookup_set_ne m w (Ne.symm hk)

/-- Finding a key in a range is looking it up. -/
theorem find?_range (hord : ∀ l, (order l).Perm l) (m : GoMap β) (k : String) :
    (m.range order).find? (fun p => p.1 = k) = (m.lookup k).map fun v => (k, v) := by
  cases h : m.lookup k with
  | none =>
    rw [Option.map_none, find?_eq_none]
    rintro ⟨k', v⟩ hp hk
    rw [mem_range hord] at hp
    have : k' = k := by simpa using hk
    rw [this, h] at hp; simp at hp
  | some v =>
    rw [Option.map_some]
    cases hf : (m.range order).find? (fun p => p.1 = k) with
    | none =>
      rw [find?_eq_none] at hf
      exact absurd (decide_eq_true rfl) (hf (k, v) ((mem_range hord m).2 h))
    | some p =>
      have h1 := mem_of_find?_eq_some hf
      have h2 : p.1 = k := by simpa using find?_some hf
      obtain ⟨k', v'⟩ := p
      simp only at h2; subst h2
      rw [mem_range hord, h] at h1
      simp only [Option.some.injEq] at h1
      rw [h1]

theorem mem_range_groupBy (hord : ∀ l, (order l).Perm l) (f : α → String) (l : List α) {p : String × List α}
    (hp : p ∈ (groupBy f l).range order) : p.2 = l.filter (fun a => f a = p.1) := by
  have h := (mem_range hord _).1 hp
  rw [lookup_groupBy] at h
  split at h
  · exact (Option.some.inj h).symm
  · simp at h

/-- The keys a range over collected slices visits. -/
theorem mem_range_groupBy_keys (hord : ∀ l, (order l).Perm l) (f : α → String) (l : List α) (k : String) :
    k ∈ ((groupBy f l).range order).map Prod.fst ↔ k ∈ l.map f := by
  rw [range_keys order hord, (hord _).mem_iff, ← AList.mem_keys, ← AList.lookup_isSome, lookup_groupBy]
  split
  · rename_i h; simpa using h
  · rename_i h; simpa using h

/-- The parts of a list by key, one after the other, are the list. -/
theorem flatMap_filter_perm (f : α → String) :
    ∀ (ks : List String) (l : List α), ks.Nodup → (∀ a ∈ l, f a ∈ ks) →
      (ks.flatMap fun k => l.filter fun a => f a = k).Perm l := by
  intro ks
  induction ks with
  | nil =>
    intro l _ h
    cases l with
    | nil => exact List.Perm.refl _
    | cons a l => exact absurd (h a mem_cons_self) (by simp)
  | cons k ks ih =>
    intro l hnd h
    rw [nodup_cons] at hnd
    -- the other parts do not see the elements with key `k`
    have hrest : (ks.flatMap fun k' => l.filter fun a => f a = k') =
        ks.flatMap fun k' => (l.filter fun a => !decide (f a = k)).filter fun a => f a = k' := by
      apply flatMap_congr
      intro k' hk'
      rw [filter_filter]
      apply filter_congr
      intro a _
      by_cases ha : f a = k'
      · have : f a ≠ k := fun h' => hnd.1 (by rw [← h', ha]; exact hk')
        simp [this]
      · simp [ha]
    rw [flatMap_cons, hrest]
    have hih := ih (l.filter fun a => !decide (f a = k)) hnd.2 (by
      intro a ha
      rw [mem_filter] at ha
      rcases mem_cons.1 (h a ha.1) with h' | h'
      · simp [h'] at ha
      · exact h')
    exact (List.Perm.append_left _ hih).trans (filter_append_perm _ _)

/-- **Ranging over the slices collected from a list visits the list**, in some order. -/
theorem flatMap_range_groupBy (hord : ∀ l, (order l).Perm l) (f : α → String) (l : List α)
    (q : String → α → Bool) :
    (((groupBy f l).range order).flatMap fun p => p.2.filter (q p.1)).Perm
      (l.filter fun a => q (f a) a) := by
  have h : (((groupBy f l).range order).flatMap fun p => p.2.filter (q p.1)) =
      (((groupBy f l).range order).map Prod.fst).flatMap
        fun k => (l.filter fun a => q (f a) a).filter fun a => f a = k := by
    rw [flatMap_map]
    apply flatMap_congr
    intro p hp
    rw [mem_range_groupBy hord f l hp, filter_filter, filter_filter]
    apply filter_congr
    intro a _
    by_cases ha : f a = p.1 <;> simp [ha]
  rw [h]
  apply flatMap_filter_perm f _ _ (range_keys_nodup hord _)
  intro a ha
  rw [mem_range_groupBy_keys hord]
  exact mem_map_of_mem (mem_of_mem_filter ha)

end GoMap

end Go
