import FortigateDns.Conc.Prog
import Mathlib.Logic.Function.Basic

/-!
# Interleavings

Any number of threads share one state. A thread that has nothing to do may start one of its
programs; a thread in a program makes its next call; a thread may crash, which forgets the
rest of its program; and the environment may change the state.
-/

namespace Conc

variable {ι E σ : Type} {R : E → Type} [DecidableEq ι]

/-- The shared state and what each thread has left to do. -/
structure Configuration (ι E : Type) (R : E → Type) (σ : Type) where
  state : σ
  thread : ι → Prog E R Unit

/-- A configuration in which no thread is in a program. -/
def Configuration.idle (s : σ) : Configuration ι E R σ := ⟨s, fun _ => .ret ()⟩

/-- What threads may run and what their calls and the environment do. -/
structure System (ι E : Type) (R : E → Type) (σ : Type) where
  exec : (e : E) → σ → R e → σ → Prop
  programs : ι → Prog E R Unit → Prop
  env : σ → σ → Prop

/-- A thread starts, or makes its next call. -/
inductive Step (S : System ι E R σ) : Configuration ι E R σ → Configuration ι E R σ → Prop
  | start (c : Configuration ι E R σ) (i : ι) (p : Prog E R Unit) (hidle : c.thread i = .ret ())
      (hp : S.programs i p) : Step S c ⟨c.state, Function.update c.thread i p⟩
  | act (c : Configuration ι E R σ) (i : ι) (e : E) (k : R e → Prog E R Unit) (r : R e) (t : σ)
      (hcall : c.thread i = .call e k) (hexec : S.exec e c.state r t) :
      Step S c ⟨t, Function.update c.thread i (k r)⟩
  | crash (c : Configuration ι E R σ) (i : ι) : Step S c ⟨c.state, Function.update c.thread i (.ret ())⟩
  | env (c : Configuration ι E R σ) (t : σ) (henv : S.env c.state t) : Step S c ⟨t, c.thread⟩

/-- Any number of steps. -/
def Reachable (S : System ι E R σ) : Configuration ι E R σ → Configuration ι E R σ → Prop :=
  Relation.ReflTransGen (Step S)

/-- What calls do in the states with an invariant. -/
def System.execIn (S : System ι E R σ) (Inv : σ → Prop) (e : E) (s : σ) (r : R e) (t : σ) : Prop :=
  Inv s ∧ S.exec e s r t

/-- Contracts for the threads of a system that fit together. -/
structure Agreement (S : System ι E R σ) (G : ι → (e : E) → σ → R e → σ → Prop) (Rely : ι → σ → σ → Prop)
    (Inv : σ → Prop) : Prop where
  guar_rely : ∀ i j, i ≠ j → ∀ e s r t, Inv s → G j e s r t → Rely i s t
  env_rely : ∀ i s t, Inv s → S.env s t → Rely i s t
  guar_inv : ∀ i e s r t, Inv s → G i e s r t → Inv t
  env_inv : ∀ s t, Inv s → S.env s t → Inv t
  programs_safe : ∀ i p, S.programs i p → ∀ s, Inv s → Safe ⟨S.execIn Inv, Rely i, G i⟩ p (fun _ _ => True) s

section

variable {S : System ι E R σ} {G : ι → (e : E) → σ → R e → σ → Prop} {Rely : ι → σ → σ → Prop}
variable {Inv : σ → Prop} {c₀ c c' : Configuration ι E R σ}

/-- A configuration with the invariant whose threads all keep their contracts. -/
def SafeConfig (S : System ι E R σ) (G : ι → (e : E) → σ → R e → σ → Prop) (Rely : ι → σ → σ → Prop)
    (Inv : σ → Prop) (c : Configuration ι E R σ) : Prop :=
  Inv c.state ∧ ∀ i, Safe ⟨S.execIn Inv, Rely i, G i⟩ (c.thread i) (fun _ _ => True) c.state

theorem safe_idle {C : Contract E R σ} {s : σ} : Safe C (.ret ()) (fun _ _ => True) s :=
  safe_ret_iff.2 fun _ _ => trivial

/-- **One step.** -/
theorem safeConfig_step (hA : Agreement S G Rely Inv) (hc : SafeConfig S G Rely Inv c) (h : Step S c c') :
    SafeConfig S G Rely Inv c' := by
  obtain ⟨hinv, hsafe⟩ := hc
  cases h with
  | start i p hidle hp =>
    refine ⟨hinv, fun j => ?_⟩
    by_cases hj : j = i
    · subst hj
      simp only [Function.update_self]
      exact hA.programs_safe j p hp _ hinv
    · simp only [Function.update_of_ne hj]
      exact hsafe j
  | act i e k r t hcall hexec =>
    have hi := hsafe i
    rw [hcall] at hi
    obtain ⟨hg, hk⟩ := safe_call_iff.1 hi _ .refl r t ⟨hinv, hexec⟩
    refine ⟨hA.guar_inv i e _ r t hinv hg, fun j => ?_⟩
    by_cases hj : j = i
    · subst hj
      simp only [Function.update_self]
      exact hk
    · simp only [Function.update_of_ne hj]
      exact safe_later (hsafe j) (.single (hA.guar_rely j i hj e _ r t hinv hg))
  | crash i =>
    refine ⟨hinv, fun j => ?_⟩
    by_cases hj : j = i
    · subst hj
      simp only [Function.update_self]
      exact safe_idle
    · simp only [Function.update_of_ne hj]
      exact hsafe j
  | env t henv =>
    exact ⟨hA.env_inv _ t hinv henv, fun j => safe_later (hsafe j) (.single (hA.env_rely j _ t hinv henv))⟩

/-- **Every reachable configuration is safe.** -/
theorem reachable_safe (hA : Agreement S G Rely Inv) {s : σ} (hs : Inv s)
    (h : Reachable S (Configuration.idle s) c) : SafeConfig S G Rely Inv c := by
  induction h with
  | refl => exact ⟨hs, fun _ => safe_idle⟩
  | tail _ hstep ih => exact safeConfig_step hA ih hstep

/-- Every step changes the state as promised, as the environment may, or not at all. -/
theorem step_guaranteed (hc : SafeConfig S G Rely Inv c) (h : Step S c c') :
    c'.state = c.state ∨ S.env c.state c'.state ∨ ∃ i e r, G i e c.state r c'.state := by
  cases h with
  | start i p hidle hp => exact Or.inl rfl
  | act i e k r t hcall hexec =>
    have hi := hc.2 i
    rw [hcall] at hi
    exact Or.inr (Or.inr ⟨i, e, r, (safe_call_iff.1 hi _ .refl r t ⟨hc.1, hexec⟩).1⟩)
  | crash i => exact Or.inl rfl
  | env t henv => exact Or.inr (Or.inl henv)

end

/-- Runs a program to its end or to the first call with `stop`, on answers given by `h`. -/
def runTo (h : (e : E) → σ → R e × σ) (stop : E → Bool) : Prog E R Unit → σ → Prog E R Unit × σ
  | .ret a, s => (.ret a, s)
  | .call e k, s => if stop e then (.call e k, s) else runTo h stop (k (h e s).1) (h e s).2

theorem runTo_end (h : (e : E) → σ → R e × σ) (p : Prog E R Unit) (s : σ) :
    (runTo h (fun _ => false) p s).1 = .ret () := by
  induction p generalizing s with
  | ret a => rfl
  | call e k ih => exact ih _ _

/-- The configuration after one thread has run. -/
def Configuration.run (c : Configuration ι E R σ) (h : (e : E) → σ → R e × σ) (stop : E → Bool) (i : ι) :
    Configuration ι E R σ :=
  ⟨(runTo h stop (c.thread i) c.state).2, Function.update c.thread i (runTo h stop (c.thread i) c.state).1⟩

/-- The configuration after one thread has started a program. -/
def Configuration.start (c : Configuration ι E R σ) (i : ι) (p : Prog E R Unit) : Configuration ι E R σ :=
  ⟨c.state, Function.update c.thread i p⟩

/-- **A thread that runs alone** for a while is one of the interleavings. -/
theorem run_reachable {S : System ι E R σ} {h : (e : E) → σ → R e × σ}
    (hh : ∀ e s, S.exec e s (h e s).1 (h e s).2) (stop : E → Bool) (i : ι) (c : Configuration ι E R σ) :
    Reachable S c (c.run h stop i) := by
  unfold Configuration.run
  generalize hp : c.thread i = p
  induction p generalizing c with
  | ret a =>
    simp only [runTo, ← hp, Function.update_eq_self]
    exact .refl
  | call e k ih =>
    unfold runTo
    split
    · simp only [← hp, Function.update_eq_self]
      exact .refl
    · have hstep := Step.act c i e k _ _ hp (hh e c.state)
      have hrest := ih (h e c.state).1 ⟨(h e c.state).2, Function.update c.thread i (k (h e c.state).1)⟩ (by simp)
      simp only [Function.update_idem] at hrest
      exact hrest.head hstep

theorem start_reachable {S : System ι E R σ} {c₀ c : Configuration ι E R σ} {i : ι} {p : Prog E R Unit}
    (h : Reachable S c₀ c) (hidle : c.thread i = .ret ()) (hp : S.programs i p) : Reachable S c₀ (c.start i p) :=
  h.tail (Step.start c i p hidle hp)

end Conc
