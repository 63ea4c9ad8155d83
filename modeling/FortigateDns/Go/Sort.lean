import Mathlib.Data.List.Sort
import Mathlib.Data.List.Perm.Basic

/-!
# Sorting by a key

`sort.Slice` with a comparison of keys leaves the order of elements with equal keys open. What
is determined: the keys come out in one order (`keys_eq_of_perm`), and where all keys are
distinct so do the elements (`eq_of_perm_of_keys`), or where the key tells all elements apart
(`eq_of_perm_of_inj`). `forall₂_of_keys` compares two such lists position by position.
-/

namespace Go

open List

variable {α β : Type} [LinearOrder β] {key : α → β} {l l' : List α}

theorem pairwise_insertionSort_key (key : α → β) (l : List α) :
    (l.insertionSort fun a b => key a ≤ key b).Pairwise fun a b => key a ≤ key b := by
  have : Std.Total fun a b : α => key a ≤ key b := ⟨fun a b => le_total _ _⟩
  have : IsTrans α fun a b => key a ≤ key b := ⟨fun a b c => le_trans⟩
  exact pairwise_insertionSort _ _

/-- The keys of a sorted list are determined by its elements. -/
theorem keys_eq_of_perm (h : l.Perm l') (hl : l.Pairwise fun a b => key a ≤ key b)
    (hl' : l'.Pairwise fun a b => key a ≤ key b) : l.map key = l'.map key :=
  (h.map key).eq_of_pairwise (fun _ _ _ _ hab hba => le_antisymm hab hba) (pairwise_map.2 hl)
    (pairwise_map.2 hl')

/-- With distinct keys the whole list is. -/
theorem eq_of_perm_of_keys (h : l.Perm l') (hl : l.Pairwise fun a b => key a ≤ key b)
    (hl' : l'.Pairwise fun a b => key a ≤ key b) (hnd : (l.map key).Nodup) : l = l' := by
  refine h.eq_of_pairwise (fun a b ha hb hab hba => ?_) hl hl'
  exact inj_on_of_nodup_map hnd ha (h.mem_iff.2 hb) (le_antisymm hab hba)

/-- So it is with a key that tells the elements apart. -/
theorem eq_of_perm_of_inj (h : l.Perm l') (hl : l.Pairwise fun a b => key a ≤ key b)
    (hl' : l'.Pairwise fun a b => key a ≤ key b) (hinj : ∀ a ∈ l, ∀ b ∈ l, key a = key b → a = b) : l = l' :=
  h.eq_of_pairwise (fun a b ha hb hab hba => hinj a ha b (h.mem_iff.2 hb) (le_antisymm hab hba)) hl hl'

/-- Lists with the same keys are related position by position when equal keys are. -/
theorem forall₂_of_keys {γ : Type} {f : α → γ} {r : α → α → Prop} (h : l.map f = l'.map f)
    (hr : ∀ a ∈ l, ∀ b ∈ l', f a = f b → r a b) : List.Forall₂ r l l' := by
  induction l generalizing l' with
  | nil =>
    rw [map_nil, eq_comm, map_eq_nil_iff] at h
    rw [h]
    exact .nil
  | cons a l ih =>
    cases l' with
    | nil => simp at h
    | cons b l' =>
      rw [map_cons, map_cons, List.cons.injEq] at h
      exact .cons (hr a mem_cons_self b mem_cons_self h.1)
        (ih h.2 fun x hx y hy => hr x (mem_cons_of_mem _ hx) y (mem_cons_of_mem _ hy))

end Go
