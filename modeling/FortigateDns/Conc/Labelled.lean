import Mathlib.Data.List.Basic

/-!
# Labelled transition systems

A path is a sequence of labelled steps. What holds along paths is proved step by step.
-/

namespace Conc

variable {σ ℓ : Type}

/-- `Path step s labels t`: steps with these labels lead from `s` to `t`. -/
inductive Path (step : σ → ℓ → σ → Prop) : σ → List ℓ → σ → Prop
  | nil (s : σ) : Path step s [] s
  | cons {s t u : σ} {label : ℓ} {labels : List ℓ} (hstep : step s label t) (hrest : Path step t labels u) :
      Path step s (label :: labels) u

variable {step : σ → ℓ → σ → Prop} {s t u : σ} {labels : List ℓ}

theorem Path.split {first rest : List ℓ} (h : Path step s (first ++ rest) u) :
    ∃ t, Path step s first t ∧ Path step t rest u := by
  induction first generalizing s with
  | nil => exact ⟨s, .nil s, h⟩
  | cons label first ih =>
    cases h with
    | cons hstep h =>
      obtain ⟨t, hfirst, hrest⟩ := ih h
      exact ⟨t, .cons hstep hfirst, hrest⟩

/-- What every step preserves holds at the end of a path. -/
theorem Path.invariant {I : σ → Prop} (hstep : ∀ s label t, I s → step s label t → I t) (h : Path step s labels t)
    (hs : I s) : I t := by
  induction h with
  | nil s => exact hs
  | cons h _ ih => exact ih (hstep _ _ _ hs h)

/-- With an invariant, what the steps with the labels of the path preserve is kept. -/
theorem Path.keeps {I P : σ → Prop} (hI : ∀ s label t, I s → step s label t → I t) (h : Path step s labels t)
    (hP : ∀ s label t, label ∈ labels → I s → P s → step s label t → P t) (hs : I s) (hPs : P s) : P t := by
  induction h with
  | nil s => exact hPs
  | cons h _ ih =>
    exact ih (fun s label t hmem => hP s label t (List.mem_cons_of_mem _ hmem)) (hI _ _ _ hs h)
      (hP _ _ _ List.mem_cons_self hs hPs h)

end Conc
