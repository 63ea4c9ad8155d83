import Mathlib.Logic.Relation

/-!
# Programs that call the outside, and what they promise

A program is a tree of calls: it ends with a result, or it makes a call and goes on with the
answer. Between two of its calls the world may change. A `Contract` says what the calls do
(`exec`), what the program may assume of the others (`Rely`) and what it promises of its own
calls (`Guar`). `Safe C p Q s` is the weakest precondition: started in `s`, `p` keeps the
contract at every call it makes, and ends with `Q`, whatever the others do within `Rely`.

* `safe_bind`, `safe_ret`, `safe_call`: the rules for the constructors.
* `safe_mono`, `safe_weaken`, `safe_later`: consequence, and `Safe` itself is preserved by the others.
* `Ensures`, `safe_seq`, `safe_then_call`, `safe_attempt_then`: the rules for actions, where
  nothing is said of the state in which an action fails.
-/

namespace Conc

variable {E : Type} {R : E → Type} {α β ε σ : Type}
variable {a : α} {e : E}

/-- A program over the calls `E`, where a call `e` is answered in `R e`. -/
inductive Prog (E : Type) (R : E → Type) (α : Type) : Type
  | ret (a : α)
  | call (e : E) (k : R e → Prog E R α)

namespace Prog

/-- One program after the other. -/
def bind : Prog E R α → (α → Prog E R β) → Prog E R β
  | .ret a, f => f a
  | .call e k, f => .call e fun r => (k r).bind f

instance : Monad (Prog E R) where
  pure := .ret
  bind := bind

/-- Forgets the result. -/
def discard (p : Prog E R α) : Prog E R Unit := p.bind fun _ => .ret ()

end Prog

/-- Programs that may end with an error. -/
abbrev Act (E : Type) (R : E → Type) (ε : Type) := ExceptT ε (Prog E R)

/-- A single call, as an action. -/
def Act.call (e : E) : Act E R ε (R e) := ExceptT.mk (.call e fun r => .ret (.ok r))

/-- Runs an action for its effects and returns how it ended. -/
def attempt (x : Act E R ε α) : Act E R ε (Except ε α) :=
  ExceptT.mk (Prog.bind x.run fun r => .ret (.ok r))

/-- What calls do, what is assumed of the others, and what is promised. -/
structure Contract (E : Type) (R : E → Type) (σ : Type) where
  exec : (e : E) → σ → R e → σ → Prop
  Rely : σ → σ → Prop
  Guar : (e : E) → σ → R e → σ → Prop

/-- Any number of steps of the others. -/
def Contract.Later (C : Contract E R σ) : σ → σ → Prop := Relation.ReflTransGen C.Rely

/-- **The program keeps the contract** from `s` on and ends with `Q`. -/
def Safe (C : Contract E R σ) : Prog E R α → (α → σ → Prop) → σ → Prop
  | .ret a, Q, s => ∀ t, C.Later s t → Q a t
  | .call e k, Q, s => ∀ s', C.Later s s' → ∀ r t, C.exec e s' r t → C.Guar e s' r t ∧ Safe C (k r) Q t

/-- An assertion that the others preserve. -/
def Contract.Stable (C : Contract E R σ) (P : σ → Prop) : Prop := ∀ s t, C.Rely s t → P s → P t

section

variable {C : Contract E R σ} {p : Prog E R α} {Q Q' : α → σ → Prop} {s t : σ} {P : σ → Prop}

theorem safe_ret_iff : Safe C (.ret a) Q s ↔ ∀ t, C.Later s t → Q a t := Iff.rfl

theorem safe_call_iff {k : R e → Prog E R α} :
    Safe C (.call e k) Q s ↔
      ∀ s', C.Later s s' → ∀ r t, C.exec e s' r t → C.Guar e s' r t ∧ Safe C (k r) Q t := Iff.rfl

-- from here on no proof evaluates a program by accident
attribute [irreducible] Safe

theorem Contract.Stable.later (hP : C.Stable P) (hs : P s) (h : C.Later s t) : P t := by
  induction h with
  | refl => exact hs
  | tail _ hstep ih => exact hP _ _ hstep ih

theorem Contract.Stable.and {P' : σ → Prop} (hP : C.Stable P) (hP' : C.Stable P') :
    C.Stable fun s => P s ∧ P' s := fun s t h hs => ⟨hP s t h hs.1, hP' s t h hs.2⟩

theorem stable_const (p : Prop) : C.Stable fun _ => p := fun _ _ _ h => h

theorem safe_later (h : Safe C p Q s) (hl : C.Later s t) : Safe C p Q t := by
  cases p with
  | ret a => exact safe_ret_iff.2 fun t' ht' => safe_ret_iff.1 h t' (hl.trans ht')
  | call e k => exact safe_call_iff.2 fun s' hs' => safe_call_iff.1 h s' (hl.trans hs')

theorem safe_mono (hQ : ∀ a s, Q a s → Q' a s) (h : Safe C p Q s) : Safe C p Q' s := by
  induction p generalizing s with
  | ret a => exact safe_ret_iff.2 fun t ht => hQ a t (safe_ret_iff.1 h t ht)
  | call e k ih =>
    refine safe_call_iff.2 fun s' hs' r t hexec => ?_
    obtain ⟨hg, hk⟩ := safe_call_iff.1 h s' hs' r t hexec
    exact ⟨hg, ih r hk⟩

/-- A program that is safe is safe when calls do less. -/
theorem safe_restrict {exec' : (e : E) → σ → R e → σ → Prop} (hexec : ∀ e s r t, exec' e s r t → C.exec e s r t)
    (h : Safe C p Q s) : Safe ⟨exec', C.Rely, C.Guar⟩ p Q s := by
  induction p generalizing s with
  | ret a => exact safe_ret_iff.2 fun t ht => (safe_ret_iff (C := C)).1 h t ht
  | call e k ih =>
    refine safe_call_iff.2 fun s' hs' r t he => ?_
    obtain ⟨hg, hk⟩ := safe_call_iff.1 h s' hs' r t (hexec e s' r t he)
    exact ⟨hg, ih r hk⟩

/-- A program that promises more promises less. -/
theorem safe_weaken {Guar' : (e : E) → σ → R e → σ → Prop} (hguar : ∀ e s r t, C.Guar e s r t → Guar' e s r t)
    (h : Safe C p Q s) : Safe ⟨C.exec, C.Rely, Guar'⟩ p Q s := by
  induction p generalizing s with
  | ret a => exact safe_ret_iff.2 fun t ht => (safe_ret_iff (C := C)).1 h t ht
  | call e k ih =>
    refine safe_call_iff.2 fun s' hs' r t he => ?_
    obtain ⟨hg, hk⟩ := safe_call_iff.1 h s' hs' r t he
    exact ⟨hguar e s' r t hg, ih r hk⟩

/-- **An invariant of the promised calls and of the others** may be assumed at every call, and
holds at the end. -/
theorem safe_invariant {I : σ → Prop} (hrely : C.Stable I)
    (hguar : ∀ e s r t, I s → C.exec e s r t → C.Guar e s r t → I t) (hs : I s)
    (h : Safe ⟨fun e s r t => I s ∧ C.exec e s r t, C.Rely, C.Guar⟩ p Q s) :
    Safe C p (fun a s => Q a s ∧ I s) s := by
  induction p generalizing s with
  | ret a =>
    exact safe_ret_iff.2 fun t ht =>
      ⟨(safe_ret_iff (C := ⟨fun e s r t => I s ∧ C.exec e s r t, C.Rely, C.Guar⟩)).1 h t ht, hrely.later hs ht⟩
  | call e k ih =>
    refine safe_call_iff.2 fun s' hs' r t he => ?_
    have hI := hrely.later hs hs'
    obtain ⟨hg, hk⟩ := safe_call_iff.1 h s' hs' r t ⟨hI, he⟩
    exact ⟨hg, ih r (hguar e s' r t hI he hg) hk⟩

theorem safe_ret (h : Q a s) (hQ : C.Stable (Q a)) : Safe C (.ret a) Q s :=
  safe_ret_iff.2 fun _ ht => hQ.later h ht

/-- **Sequencing.** -/
theorem safe_bind {f : α → Prog E R β} {Q : β → σ → Prop} (h : Safe C p (fun a s => Safe C (f a) Q s) s) :
    Safe C (p.bind f) Q s := by
  induction p generalizing s with
  | ret a => exact safe_ret_iff.1 h s .refl
  | call e k ih =>
    refine safe_call_iff.2 fun s' hs' r t hexec => ?_
    obtain ⟨hg, hk⟩ := safe_call_iff.1 h s' hs' r t hexec
    exact ⟨hg, ih r hk⟩

theorem safe_discard (h : Safe C p Q s) : Safe C p.discard (fun _ _ => True) s :=
  safe_bind (safe_mono (fun _ _ _ => safe_ret trivial (stable_const True)) h)

/-- **A call**, from a stable assertion. -/
theorem safe_call {k : R e → Prog E R α} (hP : C.Stable P) (hs : P s)
    (h : ∀ s', P s' → ∀ r t, C.exec e s' r t → C.Guar e s' r t ∧ Safe C (k r) Q t) : Safe C (.call e k) Q s :=
  safe_call_iff.2 fun s' hs' r t hexec => h s' (hP.later hs hs') r t hexec

end

/-- A postcondition of the result; an action that fails meets it. -/
def Ensures (P : α → σ → Prop) : Except ε α → σ → Prop
  | .error _, _ => True
  | .ok a, s => P a s

section

variable {C : Contract E R σ} {s : σ} {P : α → σ → Prop} {Q : β → σ → Prop}

theorem safe_pure {b : β} (hQ : C.Stable (Q b)) (hs : Q b s) :
    Safe C (pure b : Act E R ε β).run (Ensures Q) s := safe_ret hs hQ

theorem safe_pure_then {f : α → Act E R ε β} {Q : Except ε β → σ → Prop} (h : Safe C (f a).run Q s) :
    Safe C (pure a >>= f).run Q s := h

theorem safe_throw {e : ε} : Safe C (throw e : Act E R ε β).run (Ensures Q) s :=
  safe_ret_iff.2 fun _ _ => trivial

/-- **Sequencing of actions.** -/
theorem safe_seq {x : Act E R ε α} {f : α → Act E R ε β} (hx : Safe C x.run (Ensures P) s)
    (hf : ∀ a t, P a t → Safe C (f a).run (Ensures Q) t) : Safe C (x >>= f).run (Ensures Q) s := by
  refine safe_bind (safe_mono ?_ hx)
  intro r t hr
  cases r with
  | error e => exact safe_throw
  | ok a => exact hf a t hr

/-- A call, and what follows it. -/
theorem safe_then_call {f : R e → Act E R ε β} {P : σ → Prop} (hP : C.Stable P) (hs : P s)
    (h : ∀ s', P s' → ∀ r t, C.exec e s' r t → C.Guar e s' r t ∧ Safe C (f r).run (Ensures Q) t) :
    Safe C (Act.call e >>= f).run (Ensures Q) s :=
  safe_call hP hs h

/-- What follows an attempt can rely on how it ended. -/
theorem safe_attempt_seq {x : Act E R ε α} {f : Except ε α → Act E R ε β} {P : Except ε α → σ → Prop}
    (hx : Safe C x.run P s) (hf : ∀ r t, P r t → Safe C (f r).run (Ensures Q) t) :
    Safe C (attempt x >>= f).run (Ensures Q) s := by
  refine safe_bind (safe_bind (safe_mono ?_ hx))
  intro r t hr
  exact safe_ret_iff.2 fun t' ht' => safe_later (hf r t hr) ht'

/-- What follows an attempt need not rely on anything the attempt did. -/
theorem safe_attempt_then {x : Act E R ε α} {f : Except ε α → Act E R ε β} (hx : Safe C x.run (fun _ _ => True) s)
    (hf : ∀ r t, Safe C (f r).run (Ensures Q) t) : Safe C (attempt x >>= f).run (Ensures Q) s :=
  safe_attempt_seq hx fun r t _ => hf r t

theorem Ensures.mono {P' : α → σ → Prop} (h : ∀ a s, P a s → P' a s) :
    ∀ (r : Except ε α) (s : σ), Ensures P r s → Ensures P' r s
  | .error _, _, _ => trivial
  | .ok a, s, hr => h a s hr

end

end Conc
