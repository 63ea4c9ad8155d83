import FortigateDns.Conc.Prog

/-!
# Traces

The calls of one program, in order, with the states around each of them. Between two calls
the environment may change the state, and a run may stop anywhere. `Safe` over states that
carry their history (`logged`) proves properties of the events of every run:

* `run_events`, `run_result`: an event of a run has the property that the contract promises, in
  the light of the events before it, and so has the result of a run that has ended.
* `run_bind`, `run_call`: a run of a composed program, taken apart; `run_alone_call` for a run that
  may have stopped, where nobody interferes.
* `Prog.Calls`, `safe_calls`: a program whose calls are all of a harmless kind is safe.
* `runWith_run`, `runUntil_run`: the run on given answers, and the part of it before a call.
-/

namespace Conc

open List

variable {E : Type} {R : E → Type} {α β ε σ : Type}
variable {a : α} {e : E}

/-- One call: what was asked and answered, and the state before and after. -/
structure Event (E : Type) (R : E → Type) (σ : Type) where
  call : E
  before : σ
  answer : R call
  after : σ

/-- `Run exec env p s τ q t`: from `s` the program `p` makes the calls `τ`, which leaves `q` in `t`. -/
inductive Run (exec : (e : E) → σ → R e → σ → Prop) (env : σ → σ → Prop) :
    Prog E R α → σ → List (Event E R σ) → Prog E R α → σ → Prop
  | stop (p : Prog E R α) (s : σ) : Run exec env p s [] p s
  | env {p q : Prog E R α} {s s' t : σ} {τ : List (Event E R σ)} (henv : env s s')
      (hrest : Run exec env p s' τ q t) : Run exec env p s τ q t
  | call {e : E} {k : R e → Prog E R α} {q : Prog E R α} {s s' t : σ} {r : R e} {τ : List (Event E R σ)}
      (hexec : exec e s r s') (hrest : Run exec env (k r) s' τ q t) :
      Run exec env (.call e k) s (⟨e, s, r, s'⟩ :: τ) q t

section

variable {exec : (e : E) → σ → R e → σ → Prop} {env : σ → σ → Prop}

/-- A state and the calls that led to it. -/
structure Logged (E : Type) (R : E → Type) (σ : Type) where
  state : σ
  history : List (Event E R σ)

/-- The contract over logged states: every event has the property `Φ`, which may look at the
events before it. -/
def logged (exec : (e : E) → σ → R e → σ → Prop) (env : σ → σ → Prop)
    (Φ : List (Event E R σ) → Event E R σ → Prop) : Contract E R (Logged E R σ) where
  exec e s r t := exec e s.state r t.state ∧ t.history = s.history ++ [⟨e, s.state, r, t.state⟩]
  Rely s t := env s.state t.state ∧ t.history = s.history
  Guar e s r t := Φ s.history ⟨e, s.state, r, t.state⟩

variable {Φ : List (Event E R σ) → Event E R σ → Prop}

/-- **The events of a run** have the promised property. -/
theorem run_events {p q : Prog E R α} {Q : α → Logged E R σ → Prop} {s t : σ} {h τ : List (Event E R σ)}
    (hsafe : Safe (logged exec env Φ) p Q ⟨s, h⟩) (hrun : Run exec env p s τ q t) :
    ∀ pre ev post, τ = pre ++ ev :: post → Φ (h ++ pre) ev := by
  induction hrun generalizing h with
  | stop p s =>
    intro pre ev post heq
    simp at heq
  | env henv _ ih =>
    have hlater := safe_later hsafe (t := ⟨_, h⟩) (.single ⟨henv, rfl⟩)
    exact ih hlater
  | @call e k q s s' t r τ hexec _ ih =>
    obtain ⟨hguar, hrest⟩ := safe_call_iff.1 hsafe _ .refl r ⟨s', h ++ [⟨e, s, r, s'⟩]⟩ ⟨hexec, rfl⟩
    intro pre ev post heq
    cases pre with
    | nil =>
      obtain ⟨rfl, -⟩ := List.cons.inj heq
      rw [append_nil]
      exact hguar
    | cons first pre =>
      obtain ⟨rfl, hτ⟩ := List.cons.inj heq
      have hev := ih hrest pre ev post hτ
      rw [append_assoc] at hev
      exact hev

/-- **The result of a run** that has ended is as promised. -/
theorem run_result {p : Prog E R α} {Q : α → Logged E R σ → Prop} {s t : σ} {h τ : List (Event E R σ)}
    (hsafe : Safe (logged exec env Φ) p Q ⟨s, h⟩) (hrun : Run exec env p s τ (.ret a) t) : Q a ⟨t, h ++ τ⟩ := by
  generalize hq : Prog.ret a = q at hrun
  induction hrun generalizing h with
  | stop p s =>
    subst hq
    rw [append_nil]
    exact safe_ret_iff.1 hsafe _ .refl
  | env henv _ ih => exact ih (safe_later hsafe (t := ⟨_, h⟩) (.single ⟨henv, rfl⟩)) hq
  | @call e k q s s' t r τ hexec _ ih =>
    have hrest := (safe_call_iff.1 hsafe _ .refl r ⟨s', h ++ [⟨e, s, r, s'⟩]⟩ ⟨hexec, rfl⟩).2
    have hQ := ih hrest hq
    rw [append_assoc] at hQ
    exact hQ

end

/-- **What has happened stays so**: a program extends the history. -/
theorem safe_remember {exec : (e : E) → σ → R e → σ → Prop} {env : σ → σ → Prop}
    {Φ : List (Event E R σ) → Event E R σ → Prop} {x : Act E R ε α} {Q : α → Logged E R σ → Prop}
    {K : List (Event E R σ) → Prop} {s : Logged E R σ} (hK : ∀ l ev, K l → K (l ++ [ev])) (hs : K s.history)
    (h : Safe (logged exec env Φ) x.run (Ensures Q) s) :
    Safe (logged exec env Φ) x.run (Ensures fun a s => Q a s ∧ K s.history) s := by
  have hstable : (logged exec env Φ).Stable fun s => K s.history := fun s t hst hs => by
    have hhist : t.history = s.history := hst.2
    simpa only [hhist] using hs
  have hkept : ∀ e s r t, K s.history → (logged exec env Φ).exec e s r t → (logged exec env Φ).Guar e s r t →
      K t.history := fun e s r t hs hexec _ => by
    rw [hexec.2]
    exact hK _ _ hs
  refine safe_mono ?_ (safe_invariant hstable hkept hs (safe_restrict (fun _ _ _ _ h => h.2) h))
  intro r t hr
  cases r with
  | error e => trivial
  | ok a => exact hr

section

variable {exec : (e : E) → σ → R e → σ → Prop} {env : σ → σ → Prop} {s t u : σ} {τ : List (Event E R σ)}

/-- The environment may go on after a run. -/
theorem Run.later {p q : Prog E R α} (h : Run exec env p s τ q t) (henv : Relation.ReflTransGen env t u) :
    Run exec env p s τ q u := by
  induction h with
  | stop p s => exact henv.head_induction_on (.stop p u) fun h _ ih => .env h ih
  | env h _ ih => exact .env h (ih henv)
  | call hexec _ ih => exact .call hexec (ih henv)

/-- A run whose calls are all made in states with `P`. -/
theorem Run.assume {p q : Prog E R α} {P : σ → Prop} (h : Run exec env p s τ q t) (hP : ∀ ev ∈ τ, P ev.before) :
    Run (fun e s r t => P s ∧ exec e s r t) env p s τ q t := by
  induction h with
  | stop p s => exact .stop p s
  | env henv _ ih => exact .env henv (ih hP)
  | call hexec _ ih =>
    exact .call ⟨hP _ mem_cons_self, hexec⟩ (ih fun ev hev => hP ev (mem_cons_of_mem _ hev))

/-- A run that goes on where another has stopped. -/
theorem Run.append {p q q' : Prog E R α} {τ' : List (Event E R σ)} (h : Run exec env p s τ q t)
    (h' : Run exec env q t τ' q' u) : Run exec env p s (τ ++ τ') q' u := by
  induction h with
  | stop p s => exact h'
  | env henv _ ih => exact .env henv (ih h')
  | call hexec _ ih => exact .call hexec (ih h')

/-- A program that has ended makes no calls. -/
theorem run_ret {b : α} (h : Run exec env (.ret a) s τ (.ret b) t) :
    a = b ∧ τ = [] ∧ Relation.ReflTransGen env s t := by
  generalize hp : Prog.ret a = p at h
  generalize hq : Prog.ret b = q at h
  induction h with
  | stop p s => exact ⟨Prog.ret.inj (hp.trans hq.symm), rfl, .refl⟩
  | env henv _ ih =>
    obtain ⟨hab, hτ, hlater⟩ := ih hp hq
    exact ⟨hab, hτ, .head henv hlater⟩
  | call _ _ => cases hp

/-- A run of two programs in sequence is a run of the one and then of the other. -/
theorem run_bind {p : Prog E R α} {f : α → Prog E R β} {b : β} (h : Run exec env (p.bind f) s τ (.ret b) t) :
    ∃ τ₁ τ₂ a u, τ = τ₁ ++ τ₂ ∧ Run exec env p s τ₁ (.ret a) u ∧ Run exec env (f a) u τ₂ (.ret b) t := by
  generalize hp : p.bind f = whole at h
  generalize hq : Prog.ret b = q at h
  induction h generalizing p with
  | stop whole s =>
    subst hq
    cases p with
    | ret a => exact ⟨[], [], a, s, rfl, .stop _ _, hp ▸ .stop _ _⟩
    | call e k => cases hp
  | env henv _ ih =>
    obtain ⟨τ₁, τ₂, a, u, hτ, h₁, h₂⟩ := ih hp hq
    exact ⟨τ₁, τ₂, a, u, hτ, .env henv h₁, h₂⟩
  | @call e k q s s' t r τ hexec hrest ih =>
    cases p with
    | ret a =>
      have hp : f a = .call e k := hp
      exact ⟨[], _, a, s, rfl, .stop _ _, by rw [hp]; exact .call hexec hrest⟩
    | call e' k' =>
      injection hp with he hk
      subst he
      obtain rfl := eq_of_heq hk
      obtain ⟨τ₁, τ₂, a, u, hτ, h₁, h₂⟩ := ih rfl hq
      exact ⟨_ :: τ₁, τ₂, a, u, by rw [hτ]; rfl, .call hexec h₁, h₂⟩

/-- A run is one of a system with more calls and a freer environment. -/
theorem Run.mono {exec' : (e : E) → σ → R e → σ → Prop} {env' : σ → σ → Prop} {p q : Prog E R α}
    (hexec : ∀ e s r t, exec e s r t → exec' e s r t) (henv : ∀ s t, env s t → env' s t)
    (h : Run exec env p s τ q t) : Run exec' env' p s τ q t := by
  induction h with
  | stop p s => exact .stop p s
  | env hstep _ ih => exact .env (henv _ _ hstep) ih
  | call hstep _ ih => exact .call (hexec _ _ _ _ hstep) ih

/-- A run, stopped before one of its calls. -/
theorem run_until {p q : Prog E R α} {pre post : List (Event E R σ)} {ev : Event E R σ}
    (h : Run exec env p s (pre ++ ev :: post) q t) :
    (∃ q', Run exec env p s pre q' ev.before) ∧ exec ev.call ev.before ev.answer ev.after := by
  generalize hτ : pre ++ ev :: post = τ at h
  induction h generalizing pre with
  | stop p s => simp at hτ
  | env henv _ ih =>
    obtain ⟨⟨q', hrun⟩, hexec⟩ := ih hτ
    exact ⟨⟨q', .env henv hrun⟩, hexec⟩
  | call hexec _ ih =>
    cases pre with
    | nil =>
      obtain ⟨rfl, -⟩ := List.cons.inj hτ
      exact ⟨⟨_, .stop _ _⟩, hexec⟩
    | cons first pre =>
      obtain ⟨rfl, hrest⟩ := List.cons.inj hτ
      obtain ⟨⟨q', hrun⟩, hlast⟩ := ih hrest
      exact ⟨⟨q', .call hexec hrun⟩, hlast⟩

theorem run_exec {p q : Prog E R α} {ev : Event E R σ} (h : Run exec env p s τ q t) (hev : ev ∈ τ) :
    exec ev.call ev.before ev.answer ev.after := by
  obtain ⟨pre, post, rfl⟩ := append_of_mem hev
  exact (run_until h).2

/-- **What every step keeps, a run keeps.** The invariant may speak of the calls so far. -/
theorem run_invariant {p q : Prog E R α} {I : List (Event E R σ) → σ → Prop} {h : List (Event E R σ)}
    (hrun : Run exec env p s τ q t) (hs : I h s) (henv : ∀ h s t, env s t → I h s → I h t)
    (hcall : ∀ h ev, ev ∈ τ → exec ev.call ev.before ev.answer ev.after → I h ev.before →
      I (h ++ [ev]) ev.after) :
    I (h ++ τ) t := by
  induction hrun generalizing h with
  | stop p s => rwa [append_nil]
  | env hstep _ ih => exact ih (henv _ _ _ hstep hs) hcall
  | call hexec _ ih =>
    rw [append_cons]
    exact ih (hcall _ _ mem_cons_self hexec hs) fun h ev hev => hcall h ev (mem_cons_of_mem _ hev)

/-- A run of two programs in sequence that may have stopped: still in the first, or in the second. -/
theorem run_bind_partial {p : Prog E R α} {f : α → Prog E R β} {q : Prog E R β}
    (h : Run exec env (p.bind f) s τ q t) : (∃ q', Run exec env p s τ q' t) ∨
      ∃ τ₁ τ₂ a u, τ = τ₁ ++ τ₂ ∧ Run exec env p s τ₁ (.ret a) u ∧ Run exec env (f a) u τ₂ q t := by
  generalize hp : p.bind f = whole at h
  induction h generalizing p with
  | stop whole s => exact .inl ⟨p, .stop p s⟩
  | env henv _ ih =>
    rcases ih hp with ⟨q', hrun⟩ | ⟨τ₁, τ₂, a, u, hτ, h₁, h₂⟩
    · exact .inl ⟨q', .env henv hrun⟩
    · exact .inr ⟨τ₁, τ₂, a, u, hτ, .env henv h₁, h₂⟩
  | @call e k q s s' t r τ hexec hrest ih =>
    cases p with
    | ret a =>
      have hp : f a = .call e k := hp
      exact .inr ⟨[], _, a, s, rfl, .stop _ _, by rw [hp]; exact .call hexec hrest⟩
    | call e' k' =>
      injection hp with he hk
      subst he
      obtain rfl := eq_of_heq hk
      rcases ih rfl with ⟨q', hrun⟩ | ⟨τ₁, τ₂, a, u, hτ, h₁, h₂⟩
      · exact .inl ⟨q', .call hexec hrun⟩
      · exact .inr ⟨_ :: τ₁, τ₂, a, u, by rw [hτ]; rfl, .call hexec h₁, h₂⟩

/-- The environment moves, and then one call is made. -/
def Asked (exec : (e : E) → σ → R e → σ → Prop) (env : σ → σ → Prop) (e : E) (s : σ) (r : R e)
    (τ : List (Event E R σ)) (t : σ) : Prop :=
  ∃ s', Relation.ReflTransGen env s s' ∧ exec e s' r t ∧ τ = [⟨e, s', r, t⟩]

theorem run_call {k : R e → Prog E R α} (h : Run exec env (.call e k) s τ (.ret a) t) :
    ∃ τ₁ τ₂ r u, τ = τ₁ ++ τ₂ ∧ Asked exec env e s r τ₁ u ∧ Run exec env (k r) u τ₂ (.ret a) t := by
  generalize hp : Prog.call e k = p at h
  generalize hq : Prog.ret a = q at h
  induction h with
  | stop p s =>
    subst hp
    cases hq
  | env henv _ ih =>
    obtain ⟨τ₁, τ₂, r, u, hτ, ⟨s', hlater, hexec⟩, hrest⟩ := ih hp hq
    exact ⟨τ₁, τ₂, r, u, hτ, ⟨s', .head henv hlater, hexec⟩, hrest⟩
  | @call e' k' q s s' t r τ hexec hrest _ =>
    injection hp with he hk
    subst he
    obtain rfl := eq_of_heq hk
    exact ⟨[_], τ, r, s', rfl, ⟨s, .refl, hexec, rfl⟩, hq ▸ hrest⟩

/-- A call, and what follows it. -/
theorem run_call_seq {f : R e → Act E R ε β} {r : Except ε β}
    (h : Run exec env (Act.call e >>= f).run s τ (.ret r) t) :
    ∃ τ₁ τ₂ a u, τ = τ₁ ++ τ₂ ∧ Asked exec env e s a τ₁ u ∧ Run exec env (f a).run u τ₂ (.ret r) t := run_call h

/-- A program that may fail without consequence, and what follows it. -/
theorem run_attempt_seq {x : Act E R ε α} {f : Except ε α → Act E R ε β} {r : Except ε β}
    (h : Run exec env (attempt x >>= f).run s τ (.ret r) t) :
    ∃ τ₁ τ₂ a u, τ = τ₁ ++ τ₂ ∧ Run exec env x.run s τ₁ (.ret a) u ∧ Run exec env (f a).run u τ₂ (.ret r) t := by
  obtain ⟨τ₁, τ₂, a, u, rfl, hx, hf⟩ := run_bind h
  obtain ⟨τ₃, τ₄, b, v, rfl, hrun, hret⟩ := run_bind hx
  obtain ⟨hab, rfl, hlater⟩ := run_ret hret
  subst hab
  exact ⟨τ₃, τ₂, b, u, by simp, hrun.later hlater, hf⟩

/-- The environment that does nothing. -/
def Alone : σ → σ → Prop := fun _ _ => False

theorem run_alone_ret {q : Prog E R α} (h : Run exec Alone (.ret a) s τ q t) : τ = [] ∧ q = .ret a ∧ t = s := by
  cases h with
  | stop p s => exact ⟨rfl, rfl, rfl⟩
  | env henv _ => exact henv.elim

/-- A run of a call and what follows it has not begun, or begins with the call. -/
theorem run_alone_call {f : R e → Act E R ε β} {q : Prog E R (Except ε β)}
    (h : Run exec Alone (Act.call e >>= f).run s τ q t) :
    (τ = [] ∧ q = (Act.call e >>= f).run ∧ t = s) ∨
      ∃ r s' τ', exec e s r s' ∧ τ = ⟨e, s, r, s'⟩ :: τ' ∧ Run exec Alone (f r).run s' τ' q t := by
  change Run exec Alone (.call e fun r => (f r).run) s τ q t at h
  cases h with
  | stop p s => exact .inl ⟨rfl, rfl, rfl⟩
  | env henv _ => exact henv.elim
  | call hexec hrest => exact .inr ⟨_, _, _, hexec, rfl, hrest⟩

end

/-- Every call that the program may make has the property `P`. -/
def Prog.Calls (P : E → Prop) : Prog E R α → Prop
  | .ret _ => True
  | .call e k => P e ∧ ∀ r, (k r).Calls P

theorem Prog.Calls.bind {P : E → Prop} {p : Prog E R α} {f : α → Prog E R β} (hp : p.Calls P)
    (hf : ∀ a, (f a).Calls P) : (p.bind f).Calls P := by
  induction p with
  | ret a => exact hf a
  | call e k ih => exact ⟨hp.1, fun r => ih r (hp.2 r)⟩

theorem Prog.Calls.mono {P P' : E → Prop} {p : Prog E R α} (hP : ∀ e, P e → P' e) (hp : p.Calls P) :
    p.Calls P' := by
  induction p with
  | ret a => trivial
  | call e k ih => exact ⟨hP e hp.1, fun r => ih r (hp.2 r)⟩

section

variable {P : E → Prop} {x : Act E R ε α} {f : α → Act E R ε β}

theorem calls_pure : (pure a : Act E R ε α).run.Calls P := trivial

theorem calls_throw {e : ε} : (throw e : Act E R ε α).run.Calls P := trivial

theorem calls_call (h : P e) : (Act.call e : Act E R ε (R e)).run.Calls P := ⟨h, fun _ => trivial⟩

theorem calls_seq (hx : x.run.Calls P) (hf : ∀ a, (f a).run.Calls P) : (x >>= f).run.Calls P := by
  refine Prog.Calls.bind hx fun r => ?_
  cases r with
  | error e => trivial
  | ok a => exact hf a

theorem calls_ite {c : Prop} [Decidable c] {y : Act E R ε α} (hx : x.run.Calls P) (hy : y.run.Calls P) :
    (if c then x else y).run.Calls P := by
  split
  · exact hx
  · exact hy

theorem calls_attempt (hx : x.run.Calls P) : (attempt x).run.Calls P := Prog.Calls.bind hx fun _ => trivial

end

/-- **A program with harmless calls is safe.** -/
theorem safe_calls {C : Contract E R σ} {P : E → Prop} {p : Prog E R α} (hp : p.Calls P)
    (hP : ∀ e s r t, P e → C.exec e s r t → C.Guar e s r t) (s : σ) : Safe C p (fun _ _ => True) s := by
  induction p generalizing s with
  | ret a => exact safe_ret_iff.2 fun _ _ => trivial
  | call e k ih =>
    exact safe_call_iff.2 fun s' _ r t hexec => ⟨hP e s' r t hp.1 hexec, ih r (hp.2 r) t⟩

/-- The calls of a run are calls that the program may make. -/
theorem run_calls {exec : (e : E) → σ → R e → σ → Prop} {env : σ → σ → Prop} {P : E → Prop} {p q : Prog E R α}
    {s t : σ} {τ : List (Event E R σ)} (hp : p.Calls P) (hrun : Run exec env p s τ q t) :
    ∀ ev ∈ τ, P ev.call := by
  intro ev hev
  obtain ⟨pre, post, hτ⟩ := append_of_mem hev
  have hsafe : Safe (logged exec env fun _ ev => P ev.call) p (fun _ _ => True) ⟨s, []⟩ :=
    safe_calls hp (fun _ _ _ _ he _ => he) _
  exact run_events hsafe hrun pre ev post hτ

theorem later_logged {exec : (e : E) → σ → R e → σ → Prop} {env : σ → σ → Prop}
    {Φ : List (Event E R σ) → Event E R σ → Prop} {s t : Logged E R σ} (h : (logged exec env Φ).Later s t) :
    Relation.ReflTransGen env s.state t.state ∧ t.history = s.history := by
  induction h with
  | refl => exact ⟨.refl, rfl⟩
  | tail _ hstep ih => exact ⟨ih.1.tail hstep.1, hstep.2.trans ih.2⟩

/-- **What a program does, with its history**: a program that is safe without a history and whose
calls keep `J` is safe with it, and `J` holds at the end. -/
theorem safe_logged {C : Contract E R σ} {Φ : List (Event E R σ) → Event E R σ → Prop} {P : E → Prop}
    {J : List (Event E R σ) → Prop} {p : Prog E R α} {Q : α → σ → Prop} {s : Logged E R σ} (hp : p.Calls P)
    (hcall : ∀ e h s r t, P e → J h → C.exec e s r t → Φ h ⟨e, s, r, t⟩ ∧ J (h ++ [⟨e, s, r, t⟩]))
    (hs : J s.history) (h : Safe C p Q s.state) :
    Safe (logged C.exec C.Rely Φ) p (fun a t => Q a t.state ∧ J t.history) s := by
  induction p generalizing s with
  | ret a =>
    refine safe_ret_iff.2 fun t ht => ?_
    obtain ⟨hlater, hhist⟩ := later_logged ht
    exact ⟨safe_ret_iff.1 h t.state hlater, by rw [hhist]; exact hs⟩
  | call e k ih =>
    refine safe_call_iff.2 fun s' hs' r t hexec => ?_
    obtain ⟨hlater, hhist⟩ := later_logged hs'
    rw [← hhist] at hs
    obtain ⟨hΦ, hJ⟩ := hcall e s'.history s'.state r t.state hp.1 hs hexec.1
    refine ⟨hΦ, ih r (hp.2 r) ?_ (safe_call_iff.1 h s'.state hlater r t.state hexec.1).2⟩
    rw [hexec.2]
    exact hJ

-- as for `Safe`, no proof evaluates a program by accident
attribute [irreducible] Prog.Calls

/-- The calls of a program on answers given by `h`, what it returns, and the last state. -/
def runWith (h : (e : E) → σ → R e × σ) : Prog E R α → σ → List (Event E R σ) × α × σ
  | .ret a, s => ([], a, s)
  | .call e k, s =>
    let rest := runWith h (k (h e s).1) (h e s).2
    (⟨e, s, (h e s).1, (h e s).2⟩ :: rest.1, rest.2)

theorem runWith_run {exec : (e : E) → σ → R e → σ → Prop} {env : σ → σ → Prop} {h : (e : E) → σ → R e × σ}
    (hh : ∀ e s, exec e s (h e s).1 (h e s).2) (p : Prog E R α) (s : σ) :
    Run exec env p s (runWith h p s).1 (.ret (runWith h p s).2.1) (runWith h p s).2.2 := by
  induction p generalizing s with
  | ret a => exact .stop _ _
  | call e k ih => exact .call (hh e s) (ih _ _)

/-- The calls of a program until the first one with `stop`, what is left of it, and the state. -/
def runUntil (h : (e : E) → σ → R e × σ) (stop : E → Bool) : Prog E R α → σ → List (Event E R σ) × Prog E R α × σ
  | .ret a, s => ([], .ret a, s)
  | .call e k, s =>
    if stop e then ([], .call e k, s)
    else
      let rest := runUntil h stop (k (h e s).1) (h e s).2
      (⟨e, s, (h e s).1, (h e s).2⟩ :: rest.1, rest.2)

theorem runUntil_run {exec : (e : E) → σ → R e → σ → Prop} {env : σ → σ → Prop} {h : (e : E) → σ → R e × σ}
    (hh : ∀ e s, exec e s (h e s).1 (h e s).2) (stop : E → Bool) (p : Prog E R α) (s : σ) :
    Run exec env p s (runUntil h stop p s).1 (runUntil h stop p s).2.1 (runUntil h stop p s).2.2 := by
  induction p generalizing s with
  | ret a => exact .stop _ _
  | call e k ih =>
    unfold runUntil
    split
    · exact .stop _ _
    · exact .call (hh e s) (ih _ _)

attribute [irreducible] runWith runUntil

end Conc
