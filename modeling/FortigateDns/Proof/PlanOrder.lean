import Mathlib.Data.List.Dedup
import Mathlib.Data.Prod.Lex
import FortigateDns.Proof.Canonical
import FortigateDns.Proof.Coverage

/-!
# The order of a plan

A plan is sorted by phase, type and record key, and the planner works name by name. So neither
the iteration order of a map nor the ties of a sort shows in a plan, except between cleanup
operations of one record, and none of it shows in the document.
-/

namespace FortigateDns

open Go List

variable {rt rt' : Runtime} {desired current : List Endpoint} {ownerID : String}
variable {cleanup : CleanupPolicy} {allowed : Endpoint → Bool} {op op' : Operation}

/-- What a plan is sorted by, as a key. -/
def planOrderKey (op : Operation) : ℕ ×ₗ String ×ₗ String :=
  toLex (operationPhaseRank op.type, toLex (op.type.text, operationKey op))

theorem text_injective : Function.Injective OperationType.text := by
  intro a b h
  cases a <;> cases b <;> first | rfl | (exact absurd h (by decide))

theorem operationLE_iff {a b : Operation} : operationLE a b = true ↔ planOrderKey a ≤ planOrderKey b := by
  unfold operationLE planOrderKey
  rw [Prod.Lex.toLex_le_toLex, Prod.Lex.toLex_le_toLex]
  by_cases hr : operationPhaseRank a.type = operationPhaseRank b.type
  · by_cases ht : a.type = b.type
    · simp [ht]
    · have htext : a.type.text ≠ b.type.text := fun h => ht (text_injective h)
      simp [hr, ht, htext]
  · simp [hr]

theorem plan_sorted (rt : Runtime) (desired table : List Endpoint) (ownerID : String) (cleanup : CleanupPolicy)
    (allowed : Endpoint → Bool) :
    (buildWithCleanupScope rt desired table ownerID cleanup allowed).Pairwise fun a b =>
      planOrderKey a ≤ planOrderKey b := by
  unfold buildWithCleanupScope sortOperations
  simp only [operationLE_iff]
  exact pairwise_insertionSort_key planOrderKey _

/-- Earlier operations of a plan belong to earlier phases. -/
theorem plan_phases (rt : Runtime) (desired table : List Endpoint) (ownerID : String) (cleanup : CleanupPolicy)
    (allowed : Endpoint → Bool) :
    (buildWithCleanupScope rt desired table ownerID cleanup allowed).Pairwise fun a b =>
      operationPhaseRank a.type ≤ operationPhaseRank b.type := by
  refine (plan_sorted rt desired table ownerID cleanup allowed).imp fun {a b} h => ?_
  unfold planOrderKey at h
  rw [Prod.Lex.toLex_le_toLex] at h
  rcases h with h | h
  · exact h.le
  · exact h.1.le

/-- **Plans that agree at every name agree**, up to order. -/
theorem perm_of_groups {γ : Type} (f : Operation → γ) (l l' : List Operation)
    (h : ∀ g, ((l.filter fun op => op.group = g).map f).Perm ((l'.filter fun op => op.group = g).map f)) :
    (l.map f).Perm (l'.map f) := by
  have hsplit : ∀ ks : List String, ks.Nodup → ∀ l : List Operation, (∀ op ∈ l, op.group ∈ ks) →
      (l.map f).Perm (ks.flatMap fun g => (l.filter fun op => op.group = g).map f) := by
    intro ks hks l hl
    rw [← map_flatMap]
    exact ((GoMap.flatMap_filter_perm Operation.group ks l hks hl).map f).symm
  set ks := ((l ++ l').map Operation.group).dedup
  have hmem : ∀ op ∈ l ++ l', op.group ∈ ks := fun op hop => mem_dedup.2 (mem_map_of_mem hop)
  refine (hsplit ks (nodup_dedup _) l fun op hop => hmem op (mem_append_left _ hop)).trans ?_
  refine (List.Perm.flatMap_left ks fun g _ => h g).trans ?_
  exact (hsplit ks (nodup_dedup _) l' fun op hop => hmem op (mem_append_right _ hop)).symm

theorem plan_perm (rt rt' : Runtime) (hd : ∀ e ∈ desired, e.WellFormed) (hc : ∀ c ∈ current, c.WellFormed) :
    (buildWithCleanupScope rt desired current ownerID cleanup allowed).Perm
      (buildWithCleanupScope rt' desired current ownerID cleanup allowed) := by
  have h := perm_of_groups id (buildWithCleanupScope rt desired current ownerID cleanup allowed)
    (buildWithCleanupScope rt' desired current ownerID cleanup allowed) fun g => by
      rw [map_id, map_id]
      exact (buildWithCleanupScope_group rt hd hc ownerID cleanup allowed g).trans
        (buildWithCleanupScope_group rt' hd hc ownerID cleanup allowed g).symm
  rw [map_id, map_id] at h
  exact h

/-- The record key of an operation that carries a desired endpoint. -/
theorem operationKey_carries (hd : ∀ e ∈ desired, e.WellFormed) (hc : ∀ c ∈ current, c.WellFormed)
    (hop : op ∈ buildWithCleanupScope rt desired current ownerID cleanup allowed) (ht : op.type.carries = true) :
    operationKey op = op.desired.key := by
  unfold operationKey
  rw [if_pos (wf_of_mem_desiredOf hd (plan_carries hd hc hop ht)).name]

/-- **What the sort does not tell apart**: the same operation, or cleanup of one record. -/
theorem plan_tie (hd : ∀ e ∈ desired, e.WellFormed) (hc : ∀ c ∈ current, c.WellFormed)
    (hop : op ∈ buildWithCleanupScope rt desired current ownerID cleanup allowed)
    (hop' : op' ∈ buildWithCleanupScope rt desired current ownerID cleanup allowed)
    (hkey : planOrderKey op = planOrderKey op') :
    op = op' ∨ isCleanupOperation op.type = true ∧ isCleanupOperation op'.type = true ∧
      operationKey op = operationKey op' := by
  unfold planOrderKey at hkey
  obtain ⟨-, hrest⟩ := Prod.mk.inj (toLex.injective hkey)
  obtain ⟨htext, hkey⟩ := Prod.mk.inj (toLex.injective hrest)
  have htype := text_injective htext
  cases ht : op.type.carries with
  | false =>
    have hclean : isCleanupOperation op.type = true := by
      cases h : op.type <;> simp [h, OperationType.carries, OperationType.publishes, isCleanupOperation] at ht ⊢
    exact Or.inr ⟨hclean, htype ▸ hclean, hkey⟩
  | true =>
    have ht' : op'.type.carries = true := htype ▸ ht
    rw [operationKey_carries hd hc hop ht, operationKey_carries hd hc hop' ht'] at hkey
    have hdesired : op.desired = op'.desired :=
      desiredValues_inj hd (mem_desiredOf.1 (plan_carries hd hc hop ht)).1
        (mem_desiredOf.1 (plan_carries hd hc hop' ht')).1 hkey
    exact Or.inl (inj_on_of_nodup_map (plan_carries_nodup hd hc) (mem_filter.2 ⟨hop, ht⟩)
      (mem_filter.2 ⟨hop', ht'⟩) hdesired)

/-- **The runtime does not show in a plan.** Under any two iteration orders and tie-breakings the
planner returns the same operations, in the same order but for cleanup operations of one record
key, and the documents have the same bytes. -/
theorem plan_runtime_unobservable (rt rt' : Runtime) (desired current : List Endpoint) (ownerID : String)
    (cleanup : CleanupPolicy) (allowed : Endpoint → Bool) (hd : ∀ e ∈ desired, e.WellFormed)
    (hc : ∀ c ∈ current, c.WellFormed) :
    let plan := fun rt => buildWithCleanupScope rt desired current ownerID cleanup allowed
    (plan rt).Perm (plan rt') ∧
    List.Forall₂ (fun a b => a = b ∨ isCleanupOperation a.type = true ∧ isCleanupOperation b.type = true ∧
      operationKey a = operationKey b) (plan rt) (plan rt') ∧
    ∀ (dr dr' : DocumentRuntime) target preconditions,
      canonicalPreconditions dr preconditions = canonicalPreconditions dr' preconditions →
      (newDocument target preconditions (plan rt)).canonicalJSON dr =
        (newDocument target preconditions (plan rt')).canonicalJSON dr' := by
  intro plan
  have hperm : (plan rt).Perm (plan rt') := plan_perm rt rt' hd hc
  refine ⟨hperm, ?_, fun dr dr' target preconditions hpre => canonicalJSON_perm hpre (hperm.map _)⟩
  -- the sort keys agree position by position
  have hkeys := keys_eq_of_perm hperm (plan_sorted rt desired current ownerID cleanup allowed)
    (plan_sorted rt' desired current ownerID cleanup allowed)
  exact forall₂_of_keys hkeys fun a ha b hb hab => plan_tie hd hc ha (hperm.mem_iff.2 hb) hab

/-- A runtime that visits every map backwards and turns equal elements around. -/
def Runtime.backwards : Runtime where
  order _ l := l.reverse
  order_perm _ l := l.reverse_perm
  tieEndpoints l := l.reverse
  tieEndpoints_perm l := l.reverse_perm
  tieOperations l := l.reverse
  tieOperations_perm l := l.reverse_perm

/-- Two rows of one record. -/
def copiedRows : List Endpoint :=
  ["5", "7"].map fun id =>
    { dnsName := "app.example.com", recordType := "A", targets := ["192.0.2.1"], zone := "example.com"
      ownerID := "blue", providerID := id }

/-- The cleanup of two copies comes in either order, in one document. -/
theorem plan_runtime_unobservable_copies :
    build .plain [] copiedRows "blue" .delete ≠ build .backwards [] copiedRows "blue" .delete ∧
      (newDocument { name := "edge", zone := "example.com" } {}
        (build .plain [] copiedRows "blue" .delete)).canonicalJSON
          .plain =
        (newDocument { name := "edge", zone := "example.com" } {}
          (build .backwards [] copiedRows "blue" .delete)).canonicalJSON .plain :=
  ⟨by decide +kernel, (plan_runtime_unobservable .plain .backwards [] copiedRows "blue" .delete (fun _ => true)
    (by simp) (by decide +kernel)).2.2 .plain .plain _ _ rfl⟩

end FortigateDns
