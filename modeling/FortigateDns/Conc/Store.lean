import Mathlib.Data.List.Nodup
import Mathlib.Order.Nat

/-!
# A versioned object store

An API server's store of named objects with optimistic concurrency. Every write that changes
an object gives it a new `resourceVersion`, drawn from one counter, and an update names the
version it is based on. Spec and status are written separately. Deleting an object with
finalizers only marks it; it goes when the last finalizer is taken off.

* `Replaced`, `Added`, `Removed`: the three ways a call can change the store.
* `update_cases`, `updateStatus_cases`, `create_cases`, `delete_cases`: what a call does.
-/

namespace Conc

open List

variable {name : String}

/-- A stored object. `deleting` stands for a deletion timestamp. -/
structure Object (Spec Status : Type) where
  name : String
  objectNamespace : String
  uid : Nat
  resourceVersion : Nat
  finalizers : List String
  deleting : Bool
  spec : Spec
  status : Status
  deriving DecidableEq, Repr

/-- The objects, with the counter for versions and UIDs. -/
structure Store (Spec Status : Type) where
  objects : List (Object Spec Status)
  next : Nat
  next_pos : 0 < next
  names_nodup : (objects.map Object.name).Nodup
  versions_nodup : (objects.map Object.resourceVersion).Nodup
  uids_nodup : (objects.map Object.uid).Nodup
  fresh : ∀ o ∈ objects, 0 < o.resourceVersion ∧ o.resourceVersion < next ∧ o.uid < next
  finalized : ∀ o ∈ objects, o.deleting = true → o.finalizers ≠ []

/-- The errors of the API server. -/
inductive StoreError
  | notFound | conflict | alreadyExists | failed
  deriving DecidableEq, Repr

variable {Spec Status α : Type}

namespace Store

variable {s t u : Store Spec Status} {o o' c : Object Spec Status}

/-- The store before the first object. -/
def empty : Store Spec Status := ⟨[], 1, Nat.one_pos, by simp, by simp, by simp, by simp, by simp⟩

/-- `Get`. -/
def get (s : Store Spec Status) (name : String) : Except StoreError (Object Spec Status) :=
  match s.objects.find? fun o => o.name = name with
  | none => .error .notFound
  | some o => .ok o

theorem get_ok (h : s.get name = .ok o) : o ∈ s.objects ∧ o.name = name := by
  unfold get at h
  split at h
  · simp at h
  · rename_i o' hf
    rw [← Except.ok.inj h]
    exact ⟨mem_of_find?_eq_some hf, by simpa using find?_some hf⟩

theorem eq_of_version (ho : o ∈ s.objects) (ho' : o' ∈ s.objects) (h : o.resourceVersion = o'.resourceVersion) :
    o = o' := inj_on_of_nodup_map s.versions_nodup ho ho' h

theorem eq_of_name (ho : o ∈ s.objects) (ho' : o' ∈ s.objects) (h : o.name = o'.name) : o = o' :=
  inj_on_of_nodup_map s.names_nodup ho ho' h

theorem eq_of_uid (ho : o ∈ s.objects) (ho' : o' ∈ s.objects) (h : o.uid = o'.uid) : o = o' :=
  inj_on_of_nodup_map s.uids_nodup ho ho' h

/-- A new version of an object of the store. -/
def newVersion (s : Store Spec Status) (o : Object Spec Status) (finalizers : List String) (deleting : Bool)
    (spec : Spec) (status : Status) : Object Spec Status :=
  { o with
    resourceVersion := s.next, finalizers := finalizers, deleting := deleting, spec := spec, status := status }

/-- The objects with `n` in the place of the version `o`. -/
def place (o n x : Object Spec Status) : Object Spec Status :=
  if x.resourceVersion = o.resourceVersion then n else x

theorem map_place {β : Type} (ho : o ∈ s.objects) (n : Object Spec Status) (f : Object Spec Status → β)
    (hf : f n = f o) : (s.objects.map (place o n)).map f = s.objects.map f := by
  rw [map_map]
  refine map_congr_left fun x hx => ?_
  simp only [Function.comp_apply, place]
  split
  · rename_i hv; rw [hf, eq_of_version hx ho hv]
  · rfl

/-- Puts a new version in the place of `o`. -/
def write (s : Store Spec Status) (o : Object Spec Status) (ho : o ∈ s.objects) (finalizers : List String)
    (deleting : Bool) (hf : deleting = true → finalizers ≠ []) (spec : Spec) (status : Status) :
    Store Spec Status where
  objects := s.objects.map (place o (s.newVersion o finalizers deleting spec status))
  next := s.next + 1
  next_pos := Nat.succ_pos _
  names_nodup := by
    rw [map_place ho (s.newVersion o finalizers deleting spec status) Object.name rfl]
    exact s.names_nodup
  versions_nodup := by
    rw [map_map]
    refine List.Nodup.map_on ?_ (List.Nodup.of_map _ s.versions_nodup)
    intro x hx y hy hxy
    have hltx := (s.fresh x hx).2.1
    have hlty := (s.fresh y hy).2.1
    simp only [Function.comp_apply, place] at hxy
    split at hxy <;> split at hxy
    · rename_i h1 h2; exact eq_of_version hx hy (h1.trans h2.symm)
    · simp only [newVersion] at hxy; omega
    · simp only [newVersion] at hxy; omega
    · exact eq_of_version hx hy hxy
  uids_nodup := by
    rw [map_place ho (s.newVersion o finalizers deleting spec status) Object.uid rfl]
    exact s.uids_nodup
  fresh := by
    intro x hx
    obtain ⟨y, hy, rfl⟩ := mem_map.1 hx
    have hpos := s.next_pos
    have huid := (s.fresh o ho).2.2
    unfold place
    split
    · simp only [newVersion]
      omega
    · obtain ⟨h1, h2, h3⟩ := s.fresh y hy
      omega
  finalized := by
    intro x hx
    obtain ⟨y, hy, rfl⟩ := mem_map.1 hx
    unfold place
    split
    · exact hf
    · exact s.finalized y hy

/-- Takes an object out. -/
def remove (s : Store Spec Status) (o : Object Spec Status) : Store Spec Status where
  objects := s.objects.filter fun x => x.resourceVersion ≠ o.resourceVersion
  next := s.next + 1
  next_pos := Nat.succ_pos _
  names_nodup := s.names_nodup.sublist (filter_sublist.map _)
  versions_nodup := s.versions_nodup.sublist (filter_sublist.map _)
  uids_nodup := s.uids_nodup.sublist (filter_sublist.map _)
  fresh := by
    intro x hx
    obtain ⟨h1, h2, h3⟩ := s.fresh x (mem_of_mem_filter hx)
    exact ⟨h1, by omega, by omega⟩
  finalized := fun x hx => s.finalized x (mem_of_mem_filter hx)

/-- Puts a new object in. -/
def insert (s : Store Spec Status) (o : Object Spec Status) (ho : o.name ∉ s.objects.map Object.name) :
    Store Spec Status where
  objects := s.objects ++ [{ o with uid := s.next, resourceVersion := s.next, deleting := false }]
  next := s.next + 1
  next_pos := Nat.succ_pos _
  names_nodup := by
    rw [map_append, nodup_append]
    refine ⟨s.names_nodup, by simp, ?_⟩
    rintro a ha b hb rfl
    simp only [map_cons, map_nil, mem_singleton] at hb
    exact ho (hb ▸ ha)
  versions_nodup := by
    rw [map_append, nodup_append]
    refine ⟨s.versions_nodup, by simp, ?_⟩
    rintro a ha b hb rfl
    simp only [map_cons, map_nil, mem_singleton] at hb
    obtain ⟨x, hx, rfl⟩ := mem_map.1 ha
    have := (s.fresh x hx).2.1
    omega
  uids_nodup := by
    rw [map_append, nodup_append]
    refine ⟨s.uids_nodup, by simp, ?_⟩
    rintro a ha b hb rfl
    simp only [map_cons, map_nil, mem_singleton] at hb
    obtain ⟨x, hx, rfl⟩ := mem_map.1 ha
    have := (s.fresh x hx).2.2
    omega
  fresh := by
    intro x hx
    rcases mem_append.1 hx with hx | hx
    · obtain ⟨h1, h2, h3⟩ := s.fresh x hx
      exact ⟨h1, by omega, by omega⟩
    · rw [mem_singleton.1 hx]
      have := s.next_pos
      refine ⟨this, ?_, ?_⟩ <;> simp only <;> omega
  finalized := by
    intro x hx hd
    rcases mem_append.1 hx with hx | hx
    · exact s.finalized x hx hd
    · rw [mem_singleton.1 hx] at hd
      simp at hd

/-- `Create`: the status of the draft is dropped. -/
def create (s : Store Spec Status) (draft : Object Spec Status) (status : Status) :
    Except StoreError (Object Spec Status) × Store Spec Status :=
  let o := { draft with deleting := false, status := status, uid := s.next, resourceVersion := s.next }
  if ho : o.name ∈ s.objects.map Object.name then (.error .alreadyExists, s) else (.ok o, s.insert o ho)

section

variable [DecidableEq Spec] [DecidableEq Status]

/-- What an update of a stored object gives: nothing new, the object gone, or a new version. -/
def put (s : Store Spec Status) (o : Object Spec Status) (ho : o ∈ s.objects) (finalizers : List String)
    (spec : Spec) (status : Status) : Except StoreError (Object Spec Status) × Store Spec Status :=
  let n := s.newVersion o finalizers o.deleting spec status
  if finalizers = o.finalizers ∧ spec = o.spec ∧ status = o.status then (.ok o, s)
  else if h : finalizers = [] ∧ o.deleting = true then (.ok n, s.remove o)
  else (.ok n, s.write o ho finalizers o.deleting (fun hd hf => h ⟨hf, hd⟩) spec status)

/-- `Update`: spec and finalizers of the object that `req` is a version of. -/
def update (s : Store Spec Status) (req : Object Spec Status) :
    Except StoreError (Object Spec Status) × Store Spec Status :=
  match h : s.objects.find? fun o => o.name = req.name with
  | none => (.error .notFound, s)
  | some o =>
    if req.resourceVersion ≠ o.resourceVersion then (.error .conflict, s)
    else s.put o (mem_of_find?_eq_some h) req.finalizers req.spec o.status

/-- `UpdateStatus`. -/
def updateStatus (s : Store Spec Status) (req : Object Spec Status) :
    Except StoreError (Object Spec Status) × Store Spec Status :=
  match h : s.objects.find? fun o => o.name = req.name with
  | none => (.error .notFound, s)
  | some o =>
    if req.resourceVersion ≠ o.resourceVersion then (.error .conflict, s)
    else s.put o (mem_of_find?_eq_some h) o.finalizers o.spec req.status

end

/-- `Delete`, on the condition of a version. -/
def delete (s : Store Spec Status) (name : String) (version : Nat) : Except StoreError Unit × Store Spec Status :=
  match h : s.objects.find? fun o => o.name = name with
  | none => (.error .notFound, s)
  | some o =>
    if version ≠ o.resourceVersion then (.error .conflict, s)
    else if hf : o.finalizers = [] then (.ok (), s.remove o)
    else if o.deleting then (.ok (), s)
    else (.ok (), s.write o (mem_of_find?_eq_some h) o.finalizers true (fun _ => hf) o.spec o.status)

/-- `Delete`, without a condition. -/
def deleteLatest (s : Store Spec Status) (name : String) : Except StoreError Unit × Store Spec Status :=
  match s.get name with
  | .error e => (.error e, s)
  | .ok o => s.delete name o.resourceVersion

/-- The outcomes of a write over a network: as the store answers, or an error that leaves open
whether the write took effect. -/
def Answered (s : Store Spec Status) (result : Except StoreError α × Store Spec Status) (r : Except StoreError α)
    (t : Store Spec Status) : Prop :=
  (r = result.1 ∧ t = result.2) ∨ (r = .error .failed ∧ (t = s ∨ t = result.2))

/-- What is not as it was has a new version. -/
def Later (s t : Store Spec Status) : Prop :=
  s.next ≤ t.next ∧ ∀ o ∈ t.objects, o ∈ s.objects ∨ s.next ≤ o.resourceVersion

theorem later_refl (s : Store Spec Status) : Later s s := ⟨le_rfl, fun _ ho => Or.inl ho⟩

/-- An object that was read: in the store its version can only stand for this content. -/
def Seen (o : Object Spec Status) (s : Store Spec Status) : Prop :=
  0 < o.resourceVersion ∧ o.resourceVersion < s.next ∧
    ∀ o' ∈ s.objects, o'.resourceVersion = o.resourceVersion → o' = o

theorem seen_of_mem (ho : o ∈ s.objects) : Seen o s :=
  ⟨(s.fresh o ho).1, (s.fresh o ho).2.1, fun _ ho' hv => eq_of_version ho' ho hv⟩

theorem Seen.later (h : Seen o s) (hl : Later s t) : Seen o t := by
  refine ⟨h.1, h.2.1.trans_le hl.1, fun o' ho' hv => ?_⟩
  rcases hl.2 o' ho' with ho' | hnew
  · exact h.2.2 o' ho' hv
  · have := h.2.1
    omega

/-- Two objects that were read and have one version are one. -/
theorem Seen.eq (h : Seen o s) (ho' : o' ∈ s.objects) (hv : o'.resourceVersion = o.resourceVersion) : o' = o :=
  h.2.2 o' ho' hv

theorem Answered.ok {result : Except StoreError α × Store Spec Status} {a : α} (h : s.Answered result (.ok a) t) :
    result = (.ok a, t) := by
  rcases h with ⟨hr, ht⟩ | ⟨hr, -⟩
  · exact Prod.ext hr.symm ht.symm
  · simp at hr

theorem Answered.store {result : Except StoreError α × Store Spec Status} {r : Except StoreError α}
    (h : s.Answered result r t) : t = s ∨ t = result.2 := by
  rcases h with ⟨-, ht⟩ | ⟨-, ht⟩
  · exact Or.inr ht
  · exact ht

/-- `n` is a new version of `o`, and nothing else has changed. -/
structure Replaced (s t : Store Spec Status) (o n : Object Spec Status) : Prop where
  old : o ∈ s.objects
  name : n.name = o.name
  uid : n.uid = o.uid
  version : n.resourceVersion = s.next
  next : t.next = s.next + 1
  mem : ∀ x, x ∈ t.objects ↔ x = n ∨ x ∈ s.objects ∧ x ≠ o

/-- `n` is new, and nothing else has changed. -/
structure Added (s t : Store Spec Status) (n : Object Spec Status) : Prop where
  uid : n.uid = s.next
  version : n.resourceVersion = s.next
  next : t.next = s.next + 1
  mem : ∀ x, x ∈ t.objects ↔ x ∈ s.objects ∨ x = n

/-- `o` is gone, and nothing else has changed. -/
structure Removed (s t : Store Spec Status) (o : Object Spec Status) : Prop where
  next : t.next = s.next + 1
  mem : ∀ x, x ∈ t.objects ↔ x ∈ s.objects ∧ x ≠ o

variable {n : Object Spec Status}

theorem Replaced.later (h : Replaced s t o n) : Later s t := by
  refine ⟨by rw [h.next]; omega, fun x hx => ?_⟩
  rcases (h.mem x).1 hx with rfl | ⟨hx, -⟩
  · exact Or.inr h.version.ge
  · exact Or.inl hx

theorem Added.later (h : Added s t n) : Later s t := by
  refine ⟨by rw [h.next]; omega, fun x hx => ?_⟩
  rcases (h.mem x).1 hx with hx | rfl
  · exact Or.inl hx
  · exact Or.inr h.version.ge

theorem Removed.later (h : Removed s t o) : Later s t :=
  ⟨by rw [h.next]; omega, fun x hx => Or.inl ((h.mem x).1 hx).1⟩

theorem replaced_write (ho : o ∈ s.objects) {finalizers : List String} {deleting : Bool}
    (hf : deleting = true → finalizers ≠ []) {spec : Spec} {status : Status} :
    Replaced s (s.write o ho finalizers deleting hf spec status) o
      (s.newVersion o finalizers deleting spec status) where
  old := ho
  name := rfl
  uid := rfl
  version := rfl
  next := rfl
  mem x := by
    simp only [write, mem_map]
    constructor
    · rintro ⟨y, hy, rfl⟩
      unfold place
      split
      · exact Or.inl rfl
      · rename_i hv
        exact Or.inr ⟨hy, fun h => hv (by rw [h])⟩
    · rintro (rfl | ⟨hx, hne⟩)
      · exact ⟨o, ho, if_pos rfl⟩
      · exact ⟨x, hx, if_neg fun hv => hne (eq_of_version hx ho hv)⟩

theorem removed_remove (ho : o ∈ s.objects) : Removed s (s.remove o) o where
  next := rfl
  mem x := by
    simp only [remove, mem_filter, decide_eq_true_eq]
    exact ⟨fun ⟨hx, hv⟩ => ⟨hx, fun h => hv (by rw [h])⟩,
      fun ⟨hx, hne⟩ => ⟨hx, fun hv => hne (eq_of_version hx ho hv)⟩⟩

theorem added_insert (ho : o.name ∉ s.objects.map Object.name) :
    Added s (s.insert o ho) { o with uid := s.next, resourceVersion := s.next, deleting := false } where
  uid := rfl
  version := rfl
  next := rfl
  mem x := by simp [insert]

/-- A creation fails and changes nothing, or adds the draft. -/
theorem create_cases (s : Store Spec Status) (draft : Object Spec Status) (status : Status) :
    (∃ e, s.create draft status = (.error e, s)) ∨
      ∃ n t, s.create draft status = (.ok n, t) ∧ Added s t n ∧ n.name = draft.name ∧ n.spec = draft.spec ∧
        n.status = status := by
  unfold create
  simp only
  split
  · exact Or.inl ⟨_, rfl⟩
  · rename_i ho
    exact Or.inr ⟨_, _, rfl, added_insert _, rfl, rfl, rfl⟩

/-- A deletion changes nothing, removes an object or marks it. -/
theorem delete_cases (s : Store Spec Status) (name : String) (version : Nat) :
    (∃ r, s.delete name version = (r, s)) ∨ ∃ r t o, s.delete name version = (r, t) ∧
      (Removed s t o ∨ ∃ n, Replaced s t o n ∧ n.spec = o.spec ∧ n.status = o.status) := by
  unfold delete
  split
  · exact Or.inl ⟨_, rfl⟩
  · rename_i o hfind
    have ho := mem_of_find?_eq_some hfind
    split
    · exact Or.inl ⟨_, rfl⟩
    · split
      · exact Or.inr ⟨_, _, o, rfl, Or.inl (removed_remove ho)⟩
      · split
        · exact Or.inl ⟨_, rfl⟩
        · exact Or.inr ⟨_, _, o, rfl, Or.inr ⟨_, replaced_write ho _, rfl, rfl⟩⟩

theorem create_later (s : Store Spec Status) (draft : Object Spec Status) (status : Status) :
    Later s (s.create draft status).2 := by
  rcases create_cases s draft status with ⟨e, h⟩ | ⟨n, t, h, hadd, -⟩
  · rw [h]
    exact later_refl s
  · rw [h]
    exact hadd.later

theorem delete_later (s : Store Spec Status) (name : String) (version : Nat) :
    Later s (s.delete name version).2 := by
  rcases delete_cases s name version with ⟨r, h⟩ | ⟨r, t, o, h, hrem | ⟨n, hrep, -⟩⟩
  · rw [h]
    exact later_refl s
  · rw [h]
    exact hrem.later
  · rw [h]
    exact hrep.later

theorem deleteLatest_cases (s : Store Spec Status) (name : String) :
    (∃ r, s.deleteLatest name = (r, s)) ∨ ∃ r t o, s.deleteLatest name = (r, t) ∧
      (Removed s t o ∨ ∃ n, Replaced s t o n ∧ n.spec = o.spec ∧ n.status = o.status) := by
  unfold deleteLatest
  cases s.get name with
  | error e => exact Or.inl ⟨_, rfl⟩
  | ok o => exact delete_cases s name o.resourceVersion

/-- A name finds the object that has it. -/
theorem find?_name (ho : o ∈ s.objects) : (s.objects.find? fun x => x.name = o.name) = some o := by
  cases hfind : s.objects.find? fun x => x.name = o.name with
  | none => exact absurd (find?_eq_none.1 hfind o ho) (by simp)
  | some x =>
    have hname : x.name = o.name := by simpa using find?_some hfind
    rw [eq_of_name (mem_of_find?_eq_some hfind) ho hname]

theorem get_of_mem (ho : o ∈ s.objects) : s.get o.name = .ok o := by
  unfold get
  rw [find?_name ho]

theorem delete_remove (ho : o ∈ s.objects) (hf : o.finalizers = []) :
    s.delete o.name o.resourceVersion = (.ok (), s.remove o) := by
  have hfind := find?_name ho
  unfold delete
  split
  · rename_i hnone
    rw [hnone] at hfind
    cases hfind
  · rename_i x hx
    obtain rfl : x = o := Option.some.inj (hx.symm.trans hfind)
    rw [if_neg (by simp), dif_pos hf]

theorem deleteLatest_remove (ho : o ∈ s.objects) (hf : o.finalizers = []) :
    s.deleteLatest o.name = (.ok (), s.remove o) := by
  unfold deleteLatest
  rw [get_of_mem ho]
  exact delete_remove ho hf

/-- Deleting takes away no object of another name. -/
theorem mem_delete {version : Nat} (ho : o ∈ s.objects) (hname : o.name ≠ name) :
    o ∈ (s.delete name version).2.objects := by
  unfold delete
  split
  · exact ho
  · rename_i x hx
    have hx' : x.name = name := by simpa using find?_some hx
    have hversion : o.resourceVersion ≠ x.resourceVersion := by
      intro hv
      exact hname (by rw [eq_of_version ho (mem_of_find?_eq_some hx) hv, hx'])
    split_ifs
    · exact ho
    · exact mem_filter.2 ⟨ho, by simpa using hversion⟩
    · exact ho
    · exact mem_map.2 ⟨o, ho, if_neg hversion⟩

theorem mem_deleteLatest (ho : o ∈ s.objects) (hname : o.name ≠ name) : o ∈ (s.deleteLatest name).2.objects := by
  unfold deleteLatest
  cases s.get name with
  | error e => exact ho
  | ok x => exact mem_delete ho hname

/-- An unconditional delete succeeds or finds nothing. -/
theorem deleteLatest_answer (s : Store Spec Status) (name : String) :
    (s.deleteLatest name).1 = .ok () ∨ (s.deleteLatest name).1 = .error .notFound := by
  unfold deleteLatest
  cases hget : s.get name with
  | error e =>
    unfold get at hget
    split at hget
    · rw [← Except.error.inj hget]
      exact .inr rfl
    · cases hget
  | ok o =>
    obtain ⟨ho, rfl⟩ := get_ok hget
    have hfind := find?_name ho
    dsimp only
    unfold delete
    split
    · exact .inr rfl
    · rename_i x hx
      obtain rfl : x = o := Option.some.inj (hx.symm.trans hfind)
      split_ifs
      · contradiction
      · exact .inl rfl
      · exact .inl rfl
      · exact .inl rfl

section

variable [DecidableEq Spec] [DecidableEq Status]

/-- **What a write makes of an object.** -/
structure Rewritten (o n : Object Spec Status) (finalizers : List String) (spec : Spec) (status : Status) :
    Prop where
  name : n.name = o.name
  objectNamespace : n.objectNamespace = o.objectNamespace
  uid : n.uid = o.uid
  deleting : n.deleting = o.deleting
  finalizers : n.finalizers = finalizers
  spec : n.spec = spec
  status : n.status = status

/-- A write that changes nothing is not made. The object is removed by a write that takes the last finalizer of an
object that is being deleted. -/
theorem put_cases (ho : o ∈ s.objects) (finalizers : List String) (spec : Spec) (status : Status) :
    (s.put o ho finalizers spec status = (.ok o, s) ∧ Rewritten o o finalizers spec status) ∨
      ∃ n t, s.put o ho finalizers spec status = (.ok n, t) ∧ Rewritten o n finalizers spec status ∧
        (Replaced s t o n ∨
          n.resourceVersion = s.next ∧ Removed s t o ∧ finalizers = [] ∧ o.finalizers ≠ []) := by
  unfold put
  simp only
  split
  · rename_i h
    obtain ⟨hfin, hspec, hstatus⟩ := h
    exact Or.inl ⟨rfl, rfl, rfl, rfl, rfl, hfin.symm, hspec.symm, hstatus.symm⟩
  · right
    split
    · rename_i h
      exact ⟨_, _, rfl, ⟨rfl, rfl, rfl, rfl, rfl, rfl, rfl⟩,
        Or.inr ⟨rfl, removed_remove ho, h.1, s.finalized o ho h.2⟩⟩
    · exact ⟨_, _, rfl, ⟨rfl, rfl, rfl, rfl, rfl, rfl, rfl⟩, Or.inl (replaced_write ho _)⟩

theorem put_later (ho : o ∈ s.objects) (finalizers : List String) (spec : Spec) (status : Status) :
    Later s (s.put o ho finalizers spec status).2 := by
  rcases put_cases ho finalizers spec status with ⟨hput, -⟩ | ⟨n, t, hput, -, hrep | ⟨-, hrem, -⟩⟩
  · rw [hput]
    exact later_refl s
  · rw [hput]
    exact hrep.later
  · rw [hput]
    exact hrem.later

/-- The answer to a write is the object rewritten. -/
theorem put_rewritten (ho : o ∈ s.objects) (finalizers : List String) (spec : Spec) (status : Status) :
    ∃ n t, s.put o ho finalizers spec status = (.ok n, t) ∧ Rewritten o n finalizers spec status ∧
      Seen n t ∧ ∀ x ∈ t.objects, x = n ∨ x ∈ s.objects := by
  rcases put_cases ho finalizers spec status with ⟨hput, hn⟩ | ⟨n, t, hput, hn, hrep | ⟨hver, hrem, -⟩⟩
  · exact ⟨o, s, hput, hn, seen_of_mem ho, fun x hx => .inr hx⟩
  · exact ⟨n, t, hput, hn, seen_of_mem ((hrep.mem n).2 (.inl rfl)),
      fun x hx => ((hrep.mem x).1 hx).imp_right And.left⟩
  · -- the version of the answer is used up, and no object has it
    refine ⟨n, t, hput, hn, ⟨hver ▸ s.next_pos, ?_, fun x hx hv => ?_⟩, fun x hx => .inr ((hrem.mem x).1 hx).1⟩
    · rw [hver, hrem.next]
      exact Nat.lt_succ_self s.next
    · have hlt := (s.fresh x ((hrem.mem x).1 hx).1).2.1
      rw [hv, hver] at hlt
      exact absurd hlt (Nat.lt_irrefl s.next)

/-- What is stored after a write was there before, or is the object rewritten. -/
theorem mem_put (ho : o ∈ s.objects) {finalizers : List String} {spec : Spec} {status : Status}
    (hc : c ∈ (s.put o ho finalizers spec status).2.objects) :
    c ∈ s.objects ∨ Rewritten o c finalizers spec status := by
  obtain ⟨n, t, hput, hn, -, hmem⟩ := put_rewritten ho finalizers spec status
  rw [hput] at hc
  rcases hmem c hc with rfl | hold
  · exact .inr hn
  · exact .inl hold

/-- An update fails and changes nothing, or puts the new spec and finalizers in the place of the
object whose version it names. -/
theorem update_found (s : Store Spec Status) (req : Object Spec Status) :
    (∃ e, s.update req = (.error e, s)) ∨ ∃ o, ∃ ho : o ∈ s.objects, o.name = req.name ∧
      req.resourceVersion = o.resourceVersion ∧ s.update req = s.put o ho req.finalizers req.spec o.status := by
  unfold update
  split
  · exact Or.inl ⟨_, rfl⟩
  · rename_i o hf
    split
    · exact Or.inl ⟨_, rfl⟩
    · rename_i ho
      exact Or.inr ⟨o, mem_of_find?_eq_some hf, by simpa using find?_some hf, not_not.1 ho, rfl⟩

theorem updateStatus_found (s : Store Spec Status) (req : Object Spec Status) :
    (∃ e, s.updateStatus req = (.error e, s)) ∨
      ∃ o, ∃ ho : o ∈ s.objects, req.resourceVersion = o.resourceVersion ∧
      s.updateStatus req = s.put o ho o.finalizers o.spec req.status := by
  unfold updateStatus
  split
  · exact Or.inl ⟨_, rfl⟩
  · rename_i o hf
    split
    · exact Or.inl ⟨_, rfl⟩
    · rename_i ho
      exact Or.inr ⟨o, mem_of_find?_eq_some hf, not_not.1 ho, rfl⟩

/-- **An update based on an object that was read** fails and changes nothing, or puts the new
spec and finalizers in the place of that very object. -/
theorem update_cases {req : Object Spec Status} (hc : Seen c s) (hv : req.resourceVersion = c.resourceVersion) :
    (∃ e, s.update req = (.error e, s)) ∨
      ∃ ho : c ∈ s.objects, s.update req = s.put c ho req.finalizers req.spec c.status := by
  rcases update_found s req with herr | ⟨o, ho, -, hver, hput⟩
  · exact Or.inl herr
  · obtain rfl := hc.eq ho (hver.symm.trans hv)
    exact Or.inr ⟨ho, hput⟩

theorem updateStatus_cases {req : Object Spec Status} (hc : Seen c s)
    (hv : req.resourceVersion = c.resourceVersion) :
    (∃ e, s.updateStatus req = (.error e, s)) ∨
      ∃ ho : c ∈ s.objects, s.updateStatus req = s.put c ho c.finalizers c.spec req.status := by
  rcases updateStatus_found s req with herr | ⟨o, ho, hver, hput⟩
  · exact Or.inl herr
  · obtain rfl := hc.eq ho (hver.symm.trans hv)
    exact Or.inr ⟨ho, hput⟩

/-- **A status write that succeeds** was based on the object as it was stored, and its result is
stored. -/
theorem updateStatus_committed {req n : Object Spec Status} (hc : Seen c s) (h : s.updateStatus req = (.ok n, t))
    (hv : req.resourceVersion = c.resourceVersion) :
    c ∈ s.objects ∧ n ∈ t.objects ∧ n.uid = c.uid ∧ n.name = c.name ∧ n.spec = c.spec ∧
      n.status = req.status := by
  rcases updateStatus_cases hc hv with ⟨e, herr⟩ | ⟨ho, hput⟩
  · rw [herr] at h
    simp at h
  rw [hput] at h
  rcases put_cases ho c.finalizers c.spec req.status with ⟨hput, hn⟩ | ⟨n', t', hput, hn, hcase⟩
  · rw [hput] at h
    obtain ⟨hans, rfl⟩ := Prod.mk.inj h
    obtain rfl := Except.ok.inj hans
    exact ⟨ho, ho, rfl, rfl, rfl, hn.status⟩
  · rw [hput] at h
    obtain ⟨hans, rfl⟩ := Prod.mk.inj h
    obtain rfl := Except.ok.inj hans
    rcases hcase with hrep | ⟨-, -, hnil, hne⟩
    · exact ⟨ho, (hrep.mem _).2 (Or.inl rfl), hn.uid, hn.name, hn.spec, hn.status⟩
    · exact absurd hnil hne

/-- What an update leaves behind. -/
theorem update_changes (s : Store Spec Status) (req : Object Spec Status) :
    (s.update req).2 = s ∨
      (∃ o n, Replaced s (s.update req).2 o n ∧ o.name = req.name ∧ n.spec = req.spec ∧ n.status = o.status) ∨
      ∃ o, Removed s (s.update req).2 o := by
  rcases update_found s req with ⟨e, h⟩ | ⟨o, ho, hname, -, h⟩
  · exact Or.inl (by rw [h])
  · rw [h]
    rcases put_cases ho req.finalizers req.spec o.status with ⟨h, -⟩ | ⟨n, t, h, hn, hrep | ⟨-, hrem, -⟩⟩
    · exact Or.inl (by rw [h])
    · exact Or.inr (Or.inl ⟨o, n, by rw [h]; exact hrep, hname, hn.spec, hn.status⟩)
    · exact Or.inr (Or.inr ⟨o, by rw [h]; exact hrem⟩)

/-- What a status write leaves behind. -/
theorem updateStatus_changes (s : Store Spec Status) (req : Object Spec Status) :
    (s.updateStatus req).2 = s ∨ ∃ o n, Replaced s (s.updateStatus req).2 o n ∧
      req.resourceVersion = o.resourceVersion ∧ n.spec = o.spec ∧ n.status = req.status := by
  rcases updateStatus_found s req with ⟨e, h⟩ | ⟨o, ho, hver, h⟩
  · exact Or.inl (by rw [h])
  · rw [h]
    rcases put_cases ho o.finalizers o.spec req.status with ⟨h, -⟩ | ⟨n, t, h, hn, hrep | ⟨-, -, hnil, hne⟩⟩
    · exact Or.inl (by rw [h])
    · exact Or.inr ⟨o, n, by rw [h]; exact hrep, hver, hn.spec, hn.status⟩
    · exact absurd hnil hne

/-- Every call moves the store on. -/
theorem update_later (s : Store Spec Status) (req : Object Spec Status) : Later s (s.update req).2 := by
  rcases update_found s req with ⟨e, h⟩ | ⟨o, ho, -, -, h⟩
  · rw [h]
    exact later_refl s
  · rw [h]
    exact put_later ho _ _ _

theorem updateStatus_later (s : Store Spec Status) (req : Object Spec Status) :
    Later s (s.updateStatus req).2 := by
  rcases updateStatus_found s req with ⟨e, h⟩ | ⟨o, ho, -, h⟩
  · rw [h]
    exact later_refl s
  · rw [h]
    exact put_later ho _ _ _

end

end Store

end Conc
