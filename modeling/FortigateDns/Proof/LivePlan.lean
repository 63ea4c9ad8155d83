import FortigateDns.Proof.PlanSteps

/-!
# One live plan for a target

A runner applies the cycles of one target one after the other, each may end anywhere, and users
edit and delete plans in between. A plan is created only when no plan of the target is live: the
list has shown none with its hash, and those with other hashes have just been made stale.

* `AtMostOneLive`, `Good`: the invariant, and what every call of the runner promises.
-/

namespace FortigateDns

open Go Conc Store List

variable {t : PlanStore} {o : ChangePlan} {items : List ChangePlan} {retention : Int}

/-- At most one plan of the target can still be applied. -/
def AtMostOneLive (targetName : String) (s : PlanStore) : Prop :=
  ∀ x ∈ s.objects, ∀ y ∈ s.objects, x.spec.plan.targetRef = targetName → y.spec.plan.targetRef = targetName →
    Live x → Live y → x = y

/-- What every call promises: the invariant is kept, and only new plans come to life. -/
structure Good (targetName : String) (s t : PlanStore) : Prop where
  one : AtMostOneLive targetName s → AtMostOneLive targetName t
  next : s.next ≤ t.next
  revived : ∀ x ∈ t.objects, Live x → (∃ y ∈ s.objects, y.uid = x.uid ∧ Live y) ∨ s.next ≤ x.uid

theorem Settles.good {targetName : String} {s : PlanStore} (h : Settles s t) : Good targetName s t where
  one hone x hx y hy hxt hyt hxl hyl := by
    obtain ⟨x', hx', hsamex, hlivex⟩ := h.2 x hx
    obtain ⟨y', hy', hsamey, hlivey⟩ := h.2 y hy
    have hxy : x' = y' := hone x' hx' y' hy' (by rw [← hsamex.plan]; exact hxt) (by rw [← hsamey.plan]; exact hyt)
      (hlivex hxl) (hlivey hyl)
    exact eq_of_uid hx hy (by rw [hsamex.uid, hsamey.uid, hxy])
  next := h.1
  revived x hx hxl := by
    obtain ⟨y, hy, hsame, hlive⟩ := h.2 x hx
    exact Or.inl ⟨y, hy, hsame.uid.symm, hlive hxl⟩

/-- The plan with the name is in the phase, if there is one. -/
def PhaseName (name : String) (phase : PlanPhase) (s : PlanStore) : Prop :=
  ∀ o ∈ s.objects, o.name = name → o.status.phase = phase

/-- The plan with the name is live, if there is one. -/
def LiveName (name : String) (s : PlanStore) : Prop := ∀ o ∈ s.objects, o.name = name → Live o

theorem PhaseName.kept {name : String} {phase : PlanPhase} {s : PlanStore} (hst : Kept s t)
    (h : PhaseName name phase s) : PhaseName name phase t := by
  intro x hx hname
  obtain ⟨y, hy, hsame, hstatus⟩ := hst.2 x hx
  rw [hstatus]
  exact h y hy (hsame.name.symm.trans hname)

theorem LiveName.kept {name : String} {s : PlanStore} (hst : Kept s t) (h : LiveName name s) :
    LiveName name t := by
  intro x hx hname
  obtain ⟨y, hy, hsame, hstatus⟩ := hst.2 x hx
  have hlive := h y hy (hsame.name.symm.trans hname)
  unfold Live at hlive ⊢
  rw [hstatus]
  exact hlive

theorem liveName_of_mem {s : PlanStore} (ho : o ∈ s.objects) (hlive : Live o) : LiveName o.name s := by
  intro x hx hname
  rw [eq_of_name hx ho hname]
  exact hlive

/-- Calls are made in states with `I` and promise `G`; users edit. -/
def liveContract (I : PlanStore → Prop) (G : PlanStore → PlanStore → Prop) :
    Contract PlanCall PlanAnswer PlanStore :=
  ⟨fun e s r t => I s ∧ planExec e s r t, UserEdit, fun _ s _ t => G s t⟩

section

variable {I J : PlanStore → Prop} {G G' : PlanStore → PlanStore → Prop} {α β ε : Type} {s : PlanStore}
variable {x : Act PlanCall PlanAnswer ε α} {Q : α → PlanStore → Prop}

/-- What edits keep is stable. -/
theorem kept_stable (hJ : ∀ s t, Kept s t → J s → J t) : (liveContract I G).Stable J :=
  fun s t hst => hJ s t (userEdit_kept hst)

theorem seenLive_stable (o : ChangePlan) : (liveContract I G).Stable (Seen o) :=
  fun _ _ hst hs => hs.later (userEdit_later hst)

/-- The promise may be weakened. -/
theorem live_weaken {p : Prog PlanCall PlanAnswer α} (hG : ∀ s t, G s t → G' s t)
    (h : Safe (liveContract I G) p Q s) : Safe (liveContract I G') p Q s :=
  safe_weaken (C := liveContract I G) (fun _ s _ t => hG s t) h

/-- What is promised to be kept is kept. -/
theorem live_keeping (hrely : ∀ s t, Kept s t → J s → J t) (hguar : ∀ s t, G s t → J s → J t) (hs : J s)
    (h : Safe (liveContract I G) x.run (Ensures Q) s) :
    Safe (liveContract I G) x.run (Ensures fun a s => Q a s ∧ J s) s := by
  have hinv := safe_invariant (C := liveContract I G) (I := J) (kept_stable hrely)
    (fun _ s _ t hs _ hg => hguar s t hg hs) hs (safe_restrict (C := liveContract I G) (fun _ _ _ _ h => h.2) h)
  refine safe_mono ?_ hinv
  intro r t hr
  cases r with
  | error e => trivial
  | ok a => exact hr

/-- A program with settling calls only. -/
theorem live_settling (hx : x.run.Calls PlanCall.Settling) :
    Safe (liveContract I Settles) x.run (Ensures fun _ _ => True) s :=
  safe_action hx fun _ _ _ _ he hexec => settling_settles he hexec.2

/-- A call that leaves the plans alone. -/
theorem quiet_then {e : PlanCall} {f : PlanAnswer e → Act PlanCall PlanAnswer ε β} {Q : β → PlanStore → Prop}
    (hG : ∀ s, G s s) (hquiet : ∀ s r t, planExec e s r t → t = s) (hJ : (liveContract I G).Stable J) (hs : J s)
    (hf : ∀ r s', J s' → I s' → planExec e s' r s' → Safe (liveContract I G) (f r).run (Ensures Q) s') :
    Safe (liveContract I G) (Act.call e >>= f).run (Ensures Q) s := by
  refine safe_then_call hJ hs fun s' hs' r t hexec => ?_
  obtain ⟨hI, hexec⟩ := hexec
  obtain rfl := hquiet s' r t hexec
  exact ⟨hG _, hf r _ hs' hI hexec⟩

end

theorem get_quiet {name : String} (s : PlanStore) (r : Except StoreError ChangePlan) (t : PlanStore)
    (h : planExec (.get name) s r t) : t = s := h.1

theorem list_quiet (s : PlanStore) (r : Except StoreError (List ChangePlan)) (t : PlanStore)
    (h : planExec .list s r t) : t = s := h.1

theorem now_quiet (s : PlanStore) (r : Nat) (t : PlanStore) (h : planExec .now s r t) : t = s := h

section

variable {I : PlanStore → Prop} {G : PlanStore → PlanStore → Prop} {s : PlanStore} {dr : DocumentRuntime}
variable {name : String} {phase : PlanPhase} {outcomes : List OperationOutcome}

/-- A phase write of `validate` keeps a promise, for plans that have passed the check. -/
theorem updatePhaseOnce_phase {validate : ChangePlan → PlanAction Unit} {V : ChangePlan → Prop} (hG : ∀ s, G s s)
    (hvalidate : ∀ o s, o ∈ s.objects → o.name = name → I s →
      Safe (liveContract I G) (validate o).run (Ensures fun _ s => Seen o s ∧ V o) s)
    (hwrite : ∀ (o : ChangePlan) (status : PlanStatus) s r t, V o → Seen o s → status.phase = phase →
      planExec (.updateStatus { o with status := status }) s r t → G s t) (s : PlanStore) :
    Safe (liveContract I G) (ChangePlanStore.updatePhaseOnce dr name phase outcomes validate).run
      (Ensures fun n s => n.name = name ∧ PhaseName name phase s) s := by
  unfold ChangePlanStore.updatePhaseOnce
  refine quiet_then hG get_quiet (stable_const True) trivial fun r s' _ hI hexec => ?_
  refine stored_then fun o ho => ?_
  subst ho
  have hget : s'.get name = .ok o := by
    rcases hexec.2 with hr | hr
    · exact hr.symm
    · simp at hr
  obtain ⟨hmem, hname⟩ := get_ok hget
  refine safe_seq (hvalidate o s' hmem hname hI) fun _ t hafter => ?_
  have hstable : (liveContract I G).Stable fun s => Seen o s ∧ V o := (seenLive_stable o).and (stable_const _)
  have hcompleted : Safe (liveContract I G) (ChangePlanStore.completedAt phase).run
      (Ensures fun _ s => Seen o s ∧ V o) t := by
    unfold ChangePlanStore.completedAt
    split
    · exact quiet_then hG now_quiet hstable hafter fun _ _ hs' _ _ => safe_pure hstable hs'
    · exact safe_pure hstable hafter
  refine safe_seq hcompleted fun completed t hafter => ?_
  refine safe_then_call hstable hafter fun s₂ hs₂ r t hexec => ?_
  obtain ⟨hseen, hV⟩ := hs₂
  refine ⟨hwrite o _ s₂ r t hV hseen rfl hexec.2, ?_⟩
  cases r with
  | error err => exact safe_throw
  | ok n =>
    obtain ⟨-, hnew, -, hnname, -, hstatus⟩ := updateStatus_committed hseen (Answered.ok hexec.2) rfl
    refine safe_pure ((stable_const _).and (kept_stable fun _ _ => PhaseName.kept)) ⟨hnname.trans hname, ?_⟩
    intro x hx hxname
    rw [eq_of_name hx hnew (hxname.trans (hnname.trans hname).symm), hstatus]

theorem updatePhaseValidated_phase {validate : ChangePlan → PlanAction Unit} {V : ChangePlan → Prop}
    (hG : ∀ s, G s s) (hvalidate : ∀ o s, o ∈ s.objects → o.name = name → I s →
      Safe (liveContract I G) (validate o).run (Ensures fun _ s => Seen o s ∧ V o) s)
    (hwrite : ∀ (o : ChangePlan) (status : PlanStatus) s r t, V o → Seen o s → status.phase = phase →
      planExec (.updateStatus { o with status := status }) s r t → G s t) (s : PlanStore) :
    Safe (liveContract I G) (ChangePlanStore.updatePhaseValidated dr name phase outcomes validate).run
      (Ensures fun n s => n.name = name ∧ PhaseName name phase s) s :=
  retryOnConflict_safe (fun _ => (stable_const _).and (kept_stable fun _ _ => PhaseName.kept))
    (updatePhaseOnce_phase hG hvalidate hwrite) 4 s

/-- A write on a live plan settles, and keeps its name live if the phase is not terminal. -/
theorem write_live {status : PlanStatus} {r : Except StoreError ChangePlan} (hlive : Live o) (hseen : Seen o s)
    (hexec : planExec (.updateStatus { o with status := status }) s r t) :
    Settles s t ∧ ∀ name, terminalPlanPhase status.phase = false → LiveName name s → LiveName name t := by
  rcases Answered.store hexec with rfl | rfl
  · exact ⟨settles_refl _, fun _ _ h => h⟩
  rcases updateStatus_changes s { o with status := status } with hsame | ⟨o', n, hrep, hver, hspec, hstatus⟩
  · rw [hsame]
    exact ⟨settles_refl _, fun _ _ h => h⟩
  obtain rfl : o' = o := hseen.eq hrep.old hver.symm
  refine ⟨replaced_settles hrep (by rw [hspec]) fun _ => hlive, fun name hphase h x hx hxname => ?_⟩
  rcases (hrep.mem x).1 hx with rfl | ⟨hx, -⟩
  · unfold Live
    rw [hstatus]
    exact hphase
  · exact h x hx hxname

/-- **A terminal phase.** -/
theorem updatePhase_done (hphase : terminalPlanPhase phase = true) (s : PlanStore) :
    Safe (liveContract I Settles) (ChangePlanStore.updatePhase dr name phase outcomes).run
      (Ensures fun n s => n.name = name ∧ PhaseName name phase s) s := by
  refine updatePhaseValidated_phase (V := fun _ => True) settles_refl (fun o s ho _ _ => ?_)
    (fun o status s r t _ _ hstatus hexec => settling_settles ?_ hexec) s
  · exact safe_pure ((seenLive_stable o).and (stable_const _)) ⟨seen_of_mem ho, trivial⟩
  · show terminalPlanPhase status.phase = true
    rw [hstatus]
    exact hphase

/-- **A phase that is not terminal**, for a name that is live. -/
theorem updatePhase_live (hphase : terminalPlanPhase phase = false) (hs : LiveName name s) :
    Safe (liveContract I Settles) (ChangePlanStore.updatePhase dr name phase outcomes).run
      (Ensures fun n s => n.name = name ∧ LiveName name s) s := by
  -- while the phase is written the name stays live, so that what is read is live
  have hwrite : Safe (liveContract (LiveName name) fun s t => Settles s t ∧ (LiveName name s → LiveName name t))
      (ChangePlanStore.updatePhase dr name phase outcomes).run
      (Ensures fun n s => n.name = name ∧ PhaseName name phase s) s := by
    refine updatePhaseValidated_phase (V := Live) (fun s => ⟨settles_refl s, id⟩) (fun o s ho hname hI => ?_)
      (fun o status s r t hlive hseen hstatus hexec => ?_) s
    · exact safe_pure ((seenLive_stable o).and (stable_const _)) ⟨seen_of_mem ho, hI o ho hname⟩
    · obtain ⟨hsettles, hname⟩ := write_live hlive hseen hexec
      exact ⟨hsettles, hname name (by rw [hstatus]; exact hphase)⟩
  have hinv := safe_invariant (C := liveContract I fun s t => Settles s t ∧ (LiveName name s → LiveName name t))
    (I := LiveName name) (kept_stable fun _ _ => LiveName.kept) (fun _ s _ t hs _ hg => hg.2 hs) hs
    (safe_restrict (C := liveContract (LiveName name) _) (fun _ _ _ _ h => ⟨h.1, h.2.2⟩) hwrite)
  refine live_weaken (fun _ _ h => h.1) (safe_mono ?_ hinv)
  rintro (err | n) t ⟨hn, hlive⟩
  · trivial
  · exact ⟨hn.1, hlive⟩

/-- **An approved phase.** -/
theorem updateApprovedPhase_settles (expected : ChangePlan) (phase : PlanPhase) (s : PlanStore) :
    Safe (liveContract I Settles) (ChangePlanStore.updateApprovedPhase dr expected phase).run
      (Ensures fun _ _ => True) s := by
  have hvalidate : ∀ o s, Seen o s → Safe (liveContract I Settles)
    (ChangePlanStore.requireApproved expected o).run
      (Ensures fun _ s => Seen o s ∧ Live o) s := by
    intro o s hseen
    have hstable : ∀ p : Prop, (liveContract I Settles).Stable fun s => Seen o s ∧ p :=
      fun p => (seenLive_stable o).and (stable_const p)
    unfold ChangePlanStore.requireApproved ChangePlanStore.requireExactApproval
    split
    · exact safe_throw
    split
    · exact safe_throw
    rename_i hphase
    rw [not_or, Bool.not_eq_true] at hphase
    have hexpired : Safe (liveContract I Settles) (ChangePlanStore.expired o).run
      (Ensures fun _ => Seen o) s := by
      unfold ChangePlanStore.expired
      split
      · exact safe_pure (seenLive_stable o) hseen
      · exact quiet_then settles_refl now_quiet (seenLive_stable o) hseen fun _ _ hs' _ _ =>
          safe_pure (seenLive_stable o) hs'
    refine safe_seq hexpired fun expired t ht => ?_
    split
    · exact safe_throw
    split
    · exact safe_throw
    split
    · exact safe_throw
    · exact safe_pure (hstable _) ⟨ht, hphase.2⟩
  refine safe_mono (Ensures.mono fun _ _ _ => trivial) (updatePhaseValidated_phase settles_refl
    (fun o s ho _ _ => hvalidate o s (seen_of_mem ho)) (fun o status s r t hlive hseen _ hexec => ?_) s)
  exact (write_live hlive hseen hexec).1

end

/-- The plans of the target, as a list has shown them; since then only users have changed plans. -/
def Saw (targetName : String) (items : List ChangePlan) (s : PlanStore) : Prop :=
  ∃ s₀, Kept s₀ s ∧ ∀ o, o ∈ items ↔ o ∈ s₀.objects ∧ o.spec.plan.targetRef = targetName

theorem Saw.kept {targetName : String} {s : PlanStore} (hst : Kept s t) (h : Saw targetName items s) :
    Saw targetName items t := by
  obtain ⟨s₀, hs₀, hitems⟩ := h
  exact ⟨s₀, hs₀.trans hst, hitems⟩

/-- Every live plan of the target with another hash is still to be made stale. -/
def Left (targetName keepHash : String) (items : List ChangePlan) (s : PlanStore) : Prop :=
  ∀ o ∈ s.objects, o.spec.plan.targetRef = targetName → o.spec.plan.planHash ≠ keepHash → Live o →
    ∃ item ∈ items, item.name = o.name ∧ ChangePlanStore.notSuperseded keepHash item = false

/-- No plan of the target with the hash is live. -/
def NoLiveHash (targetName hash : String) (s : PlanStore) : Prop :=
  ∀ o ∈ s.objects, o.spec.plan.targetRef = targetName → o.spec.plan.planHash = hash → ¬ Live o

theorem Left.settles {targetName keepHash : String} {s : PlanStore} (hst : Settles s t)
    (h : Left targetName keepHash items s) : Left targetName keepHash items t := by
  intro x hx href hhash hlive
  obtain ⟨y, hy, hsame, hback⟩ := hst.2 x hx
  obtain ⟨item, hitem, hname, hnot⟩ := h y hy (by rw [← hsame.plan]; exact href)
    (by rw [← hsame.plan]; exact hhash) (hback hlive)
  exact ⟨item, hitem, hname.trans hsame.name.symm, hnot⟩

theorem NoLiveHash.settles {targetName hash : String} {s : PlanStore} (hst : Settles s t)
    (h : NoLiveHash targetName hash s) : NoLiveHash targetName hash t := by
  intro x hx href hhash hlive
  obtain ⟨y, hy, hsame, hback⟩ := hst.2 x hx
  exact h y hy (by rw [← hsame.plan]; exact href) (by rw [← hsame.plan]; exact hhash) (hback hlive)

theorem live_not_stale (h : Live o) : o.status.phase ≠ .stale := by
  intro hstale
  unfold Live at h
  rw [hstale] at h
  simp [terminalPlanPhase] at h

theorem Saw.left {targetName keepHash : String} {s : PlanStore} (h : Saw targetName items s) :
    Left targetName keepHash items s := by
  obtain ⟨s₀, hs₀, hitems⟩ := h
  refine Left.settles hs₀.settles fun o ho href hhash hlive => ⟨o, (hitems o).2 ⟨ho, href⟩, rfl, ?_⟩
  unfold ChangePlanStore.notSuperseded
  rw [Bool.or_eq_false_iff, Bool.or_eq_false_iff]
  exact ⟨⟨beq_false_of_ne hhash, hlive⟩, beq_false_of_ne (live_not_stale hlive)⟩

theorem reusable_iff : ChangePlanStore.reusable o = true ↔ Live o := by
  unfold ChangePlanStore.reusable Live
  constructor
  · intro h
    simp only [Bool.and_eq_true, Bool.not_eq_true'] at h
    exact h.1
  · intro h
    have hstale := live_not_stale h
    rw [h]
    simpa using hstale

section

variable {I : PlanStore → Prop} {s : PlanStore} {dr : DocumentRuntime} {targetName keepHash : String}

theorem listTarget_saw (s : PlanStore) : Safe (liveContract I Settles) (ChangePlanStore.listTarget targetName).run
    (Ensures fun items s => Saw targetName items s) s := by
  unfold ChangePlanStore.listTarget
  refine quiet_then settles_refl list_quiet (stable_const True) trivial fun r s' _ _ hexec => ?_
  refine stored_then fun items hitems => ?_
  refine safe_pure (kept_stable fun _ _ => Saw.kept) ⟨s', .refl s', fun o => ?_⟩
  have hperm : items.Perm s'.objects := by
    rcases hexec.2 with ⟨listed, hperm, hr⟩ | hr
    · obtain rfl := Except.ok.inj (hitems.symm.trans hr)
      exact hperm
    · rw [hr] at hitems
      simp at hitems
  rw [mem_filter, hperm.mem_iff, decide_eq_true_eq]

theorem staleAll_left (items : List ChangePlan) (s : PlanStore) (hs : Left targetName keepHash items s) :
    Safe (liveContract I Settles) (ChangePlanStore.staleAll dr keepHash items).run
      (Ensures fun _ s => Left targetName keepHash [] s) s := by
  induction items generalizing s with
  | nil => exact safe_pure (kept_stable fun _ _ h => Left.settles h.settles) hs
  | cons item rest ih =>
    unfold ChangePlanStore.staleAll
    split
    · rename_i hskip
      refine ih s fun o ho href hhash hlive => ?_
      obtain ⟨found, hfound, hname, hnot⟩ := hs o ho href hhash hlive
      rcases mem_cons.1 hfound with rfl | hfound
      · rw [hskip] at hnot
        simp at hnot
      · exact ⟨found, hfound, hname, hnot⟩
    · refine safe_seq (live_keeping (fun _ _ h => Left.settles h.settles) (fun _ _ => Left.settles) hs
        (updatePhase_done rfl s)) fun _ t ht => ?_
      obtain ⟨⟨-, hstale⟩, hleft⟩ := ht
      refine ih t fun o ho href hhash hlive => ?_
      obtain ⟨found, hfound, hname, hnot⟩ := hleft o ho href hhash hlive
      rcases mem_cons.1 hfound with rfl | hfound
      · exact absurd (hstale o ho hname.symm) (live_not_stale hlive)
      · exact ⟨found, hfound, hname, hnot⟩

/-- **What `StaleSuperseded` leaves**: no live plan of the target with another hash. -/
theorem staleSuperseded_left (s : PlanStore) :
    Safe (liveContract I Settles) (ChangePlanStore.staleSuperseded dr targetName keepHash).run
      (Ensures fun _ s => Left targetName keepHash [] s) s :=
  safe_seq (listTarget_saw s) fun items t hsaw => staleAll_left items t hsaw.left

end

theorem create_good {targetName : String} {s : PlanStore} {n : ChangePlan} (h : Added s t n)
    (hnone : ∀ o ∈ s.objects, o.spec.plan.targetRef = targetName → ¬ Live o) : Good targetName s t where
  one _ x hx y hy hxt hyt hxl hyl := by
    have hnew : ∀ z ∈ t.objects, z.spec.plan.targetRef = targetName → Live z → z = n := by
      intro z hz href hlive
      rcases (h.mem z).1 hz with hz | rfl
      · exact absurd hlive (hnone z hz href)
      · rfl
    rw [hnew x hx hxt hxl, hnew y hy hyt hyl]
  next := by rw [h.next]; omega
  revived x hx hxl := by
    rcases (h.mem x).1 hx with hx | rfl
    · exact Or.inl ⟨x, hx, rfl, hxl⟩
    · exact Or.inr h.uid.ge

section

variable {I : PlanStore → Prop} {s : PlanStore} {dr : DocumentRuntime} {unmarshal : List Char → Option Document}
variable {targetName : String}

theorem good_refl (s : PlanStore) : Good targetName s s := (settles_refl s).good

/-- The promise of a program that only settles. -/
theorem settles_good {α : Type} {p : Prog PlanCall PlanAnswer α} {Q : α → PlanStore → Prop}
    (h : Safe (liveContract I Settles) p Q s) : Safe (liveContract I (Good targetName)) p Q s :=
  live_weaken (fun _ _ h => h.good) h

/-- Pruning leaves names live. -/
theorem pruneHistory_live {name : String} (hs : LiveName name s) :
    Safe (liveContract I (Good targetName)) (ChangePlanStore.pruneHistory targetName retention).run
      (Ensures fun _ => LiveName name) s := by
  have hkept : Safe (liveContract I Kept) (ChangePlanStore.pruneHistory targetName retention).run
      (Ensures fun _ _ => True) s :=
    safe_action (pruneHistory_keeping _ _) fun _ _ _ _ he hexec => keeping_kept he hexec.2
  refine live_weaken (fun _ _ h => h.settles.good) (safe_mono (Ensures.mono ?_)
    (live_keeping (fun _ _ => LiveName.kept) (fun _ _ => LiveName.kept) hs hkept))
  exact fun _ _ h => h.2

/-- **A plan is created when no plan of the target is live.** -/
theorem createPlan_live {object : ChangePlan} (hs : NoLiveHash targetName object.spec.plan.planHash s) :
    Safe (liveContract I (Good targetName)) (ChangePlanStore.createPlan dr object targetName retention).run
      (Ensures fun o s => LiveName o.name s) s := by
  unfold ChangePlanStore.createPlan
  refine safe_seq (settles_good (live_keeping (fun _ _ h => NoLiveHash.settles h.settles)
    (fun _ _ => NoLiveHash.settles) hs (staleSuperseded_left s))) fun _ t ht => ?_
  have hstable : (liveContract I (Good targetName)).Stable fun s =>
      Left targetName object.spec.plan.planHash [] s ∧ NoLiveHash targetName object.spec.plan.planHash s :=
    kept_stable fun _ _ h hs => ⟨hs.1.settles h.settles, hs.2.settles h.settles⟩
  refine safe_then_call hstable ht fun s' hs' r t hexec => ?_
  -- none has this hash, and those with others are stale by now
  have hnone : ∀ o ∈ s'.objects, o.spec.plan.targetRef = targetName → ¬ Live o := by
    intro o ho href hlive
    by_cases hhash : o.spec.plan.planHash = object.spec.plan.planHash
    · exact hs'.2 o ho href hhash hlive
    · obtain ⟨item, hitem, -⟩ := hs'.1 o ho href hhash hlive
      simp at hitem
  obtain ⟨now, hexec⟩ := hexec.2
  rcases create_cases s' { object with spec := { object.spec with generation := 1, creationTimestamp := now } } {}
    with ⟨e, herr⟩ | ⟨n, t', hok, hadd, -, -, hstatus⟩
  · rw [herr] at hexec
    obtain rfl : t = s' := hexec.store.elim id id
    refine ⟨good_refl t, stored_then fun created hcreated => ?_⟩
    subst hcreated
    have hput := Answered.ok hexec
    simp at hput
  · rw [hok] at hexec
    refine ⟨?_, stored_then fun created hcreated => ?_⟩
    · rcases hexec.store with rfl | rfl
      · exact good_refl t
      · exact create_good hadd hnone
    · subst hcreated
      obtain ⟨hn, rfl⟩ := Prod.mk.inj (Answered.ok hexec)
      obtain rfl := Except.ok.inj hn
      have hlive : Live n := by
        unfold Live
        rw [hstatus]
        rfl
      have hname : LiveName n.name t' := liveName_of_mem ((hadd.mem n).2 (Or.inr rfl)) hlive
      refine safe_seq (settles_good (updatePhase_live rfl hname)) fun result t ht => ?_
      refine safe_seq (pruneHistory_live ht.2) fun _ t hlive => ?_
      have hresult : LiveName result.name t := by
        rw [ht.1]
        exact hlive
      exact safe_pure (kept_stable fun _ _ => LiveName.kept) hresult

/-- **`PersistCurrent` keeps the promise**, and returns a plan whose name is live. -/
theorem persistCurrent_live {objectNamespace : String} {document : Document} {expiresAt : Option Nat}
    (htarget : document.target.name = targetName) (s : PlanStore) :
    Safe (liveContract I (Good targetName))
      (ChangePlanStore.persistCurrent dr unmarshal objectNamespace document expiresAt retention).run
      (Ensures fun o s => LiveName o.name s) s := by
  unfold ChangePlanStore.persistCurrent
  rw [htarget]
  refine safe_seq (settles_good (listTarget_saw s)) fun items t hsaw => ?_
  refine verified_then fun hash hhash => ?_
  have hstable : ∀ o : ChangePlan, (liveContract I (Good targetName)).Stable (LiveName o.name) :=
    fun o => kept_stable fun _ _ => LiveName.kept
  split
  · rename_i candidate hfind
    -- a live plan that the list has shown
    refine verified_then fun _ _ => ?_
    obtain ⟨s₀, hs₀, hitems⟩ := hsaw
    have hlive : Live candidate := by
      have hfound := find?_some hfind
      rw [Bool.and_eq_true] at hfound
      exact reusable_iff.1 hfound.2
    have hmem := ((hitems candidate).1 (mem_of_find?_eq_some hfind)).1
    exact safe_pure (hstable candidate) ((liveName_of_mem hmem hlive).kept hs₀)
  · rename_i hfind
    have hnone : NoLiveHash targetName hash t := by
      obtain ⟨s₀, hs₀, hitems⟩ := hsaw
      refine NoLiveHash.settles hs₀.settles fun o ho href hohash hlive => ?_
      have hnot := find?_eq_none.1 hfind o ((hitems o).2 ⟨ho, href⟩)
      rw [Bool.and_eq_true, not_and] at hnot
      exact hnot (by rw [hohash]; exact beq_self_eq_true hash) (reusable_iff.2 hlive)
    have hstays : (liveContract I (Good targetName)).Stable (NoLiveHash targetName hash) :=
      kept_stable fun _ _ h => NoLiveHash.settles h.settles
    have hname : Safe (liveContract I (Good targetName)) (ChangePlanStore.chooseName targetName hash items).run
        (Ensures fun _ s => NoLiveHash targetName hash s) t := by
      unfold ChangePlanStore.chooseName
      split
      · exact quiet_then good_refl now_quiet hstays hnone fun _ _ hs' _ _ => safe_pure hstays hs'
      · exact safe_pure hstays hnone
    refine safe_seq hname fun name t hnone => ?_
    refine verified_then fun object hobject => ?_
    have hobject : object.spec.plan.planHash = hash := by
      have hid := (newChangePlanObject_ok hobject).2
      rw [hid] at hhash
      exact Except.ok.inj hhash
    refine quiet_then good_refl get_quiet hstays hnone fun r s' hs' _ hexec => ?_
    cases r with
    | ok existing =>
      have hget : s'.get name = .ok existing := by
        rcases hexec.2 with hr | hr
        · exact hr.symm
        · simp at hr
      refine verified_then fun _ _ => ?_
      split
      · rename_i hreusable
        exact safe_pure (hstable existing) (liveName_of_mem (get_ok hget).1 (reusable_iff.1 hreusable))
      · exact safe_throw
    | error err =>
      cases err with
      | notFound => exact createPlan_live (by rw [hobject]; exact hs')
      | _ => exact safe_throw

variable {cfg : ApplyConfig} {plan : PreparedPlan}

theorem persistPlan_live (htarget : plan.document.target.name = targetName) (s : PlanStore) :
    Safe (liveContract I (Good targetName)) (Runner.persistPlan dr unmarshal cfg plan).run
      (Ensures fun persisted s => ∀ o, persisted = some o → cfg.approvalRequired = false →
        LiveName o.name s) s := by
  have hstable : ∀ persisted : Option ChangePlan, (liveContract I (Good targetName)).Stable fun s =>
      ∀ o, persisted = some o → cfg.approvalRequired = false → LiveName o.name s :=
    fun _ => kept_stable fun _ _ h hs o ho happroval => (hs o ho happroval).kept h
  unfold Runner.persistPlan
  split
  · have hname : ∀ o : ChangePlan, (liveContract I (Good targetName)).Stable (LiveName o.name) :=
      fun o => kept_stable fun _ _ => LiveName.kept
    refine safe_seq (orFail_safe hname (persistCurrent_live htarget s)) fun persisted t hlive => ?_
    split
    · rename_i happroval
      refine safe_seq (settles_good (live_settling (calls_orFail (requireExactApproval_settling persisted))))
        fun _ t _ => ?_
      refine safe_seq (orFail_safe (fun _ => stable_const True)
        (settles_good (updateApprovedPhase_settles persisted .approved t))) fun _ t _ => ?_
      refine safe_pure (hstable _) fun o _ hnot => ?_
      rw [happroval] at hnot
      simp at hnot
    · refine safe_pure (hstable _) fun o ho _ => ?_
      obtain rfl := Option.some.inj ho
      exact hlive
  · refine safe_pure (hstable _) fun o ho => ?_
    simp at ho

theorem failStale_never {α : Type} {name : Option String} {err : PlanError} {Q : α → PlanStore → Prop} :
    Safe (liveContract I (Good targetName)) (Runner.failStale dr name err : ApplyAction α).run (Ensures Q) s := by
  unfold Runner.failStale
  split
  · exact safe_seq (settles_good (live_settling
      (calls_orFail (calls_attempt (writeTerminalPhase_settling rfl _ _)))))
      fun _ _ _ => safe_throw
  · exact safe_throw

/-- A revalidation that passes changes no plan. -/
theorem revalidate_live {name : Option String} {planID : String} {J : PlanStore → Prop}
    (hJ : (liveContract I (Good targetName)).Stable J) (hs : J s) :
    Safe (liveContract I (Good targetName)) (Runner.revalidate dr name planID).run (Ensures fun _ => J) s := by
  unfold Runner.revalidate
  refine quiet_then good_refl (fun _ _ _ h => h) hJ hs fun r s' hs' _ _ => ?_
  split
  · exact failStale_never
  · split
    · exact failStale_never
    · exact safe_pure hJ hs'

theorem beginApply_live {persisted : Option ChangePlan}
    (hs : ∀ o, persisted = some o → cfg.approvalRequired = false → LiveName o.name s) :
    Safe (liveContract I (Good targetName)) (Runner.beginApply dr cfg persisted).run
      (Ensures fun _ _ => True) s := by
  unfold Runner.beginApply
  cases persisted with
  | none => exact safe_pure (stable_const True) trivial
  | some o =>
    refine safe_seq (P := fun _ _ => True) (orFail_safe (fun _ => stable_const True) ?_)
      fun _ _ _ => safe_pure (stable_const True) trivial
    split
    · exact settles_good (updateApprovedPhase_settles o .applying s)
    · rename_i happroval
      exact settles_good (safe_mono (Ensures.mono fun _ _ _ => trivial)
        (updatePhase_live rfl (hs o rfl (Bool.not_eq_true _ ▸ happroval))))

theorem authorize_good (htarget : plan.document.target.name = targetName) (s : PlanStore) :
    Safe (liveContract I (Good targetName)) (Runner.authorize dr unmarshal cfg plan).run
      (Ensures fun _ _ => True) s := by
  unfold Runner.authorize
  refine safe_seq (settles_good (live_settling (calls_orFail calls_verified))) fun planID t _ => ?_
  refine safe_seq (settles_good (live_settling (calls_orFail (writePlanFile_settling _)))) fun _ t _ => ?_
  refine safe_seq (settles_good (live_settling (calls_orFail (checkApprovedHash_settling _)))) fun _ t _ => ?_
  split
  · refine safe_seq (persistPlan_live htarget t) fun persisted t hlive => ?_
    have hstable : (liveContract I (Good targetName)).Stable fun s =>
        ∀ o, persisted = some o → cfg.approvalRequired = false → LiveName o.name s :=
      kept_stable fun _ _ h hs o ho happroval => (hs o ho happroval).kept h
    refine safe_seq (revalidate_live hstable hlive) fun _ t hlive => ?_
    exact safe_seq (beginApply_live hlive) fun _ t _ => safe_pure (stable_const True) trivial
  · exact safe_seq (settles_good (live_settling (calls_orFail (supersedeAll_settling _))))
      fun _ t _ => safe_pure (stable_const True) trivial

theorem execute_good {name : Option String} {planApproved : Bool} (s : PlanStore) :
    Safe (liveContract I (Good targetName)) (Runner.execute dr cfg plan.operations name planApproved).run
      (Ensures fun _ _ => True) s := by
  unfold Runner.execute
  refine safe_seq (settles_good (live_settling (beforeMutation_settling name))) fun _ t _ => ?_
  refine quiet_then good_refl (fun _ _ _ h => h) (stable_const True) trivial fun answer s' _ _ _ => ?_
  exact settles_good (live_settling (calls_seq
    (calls_orFail (recordTerminal_settling _ (terminalPhase_terminal _ _ _) _ _)) fun _ =>
      calls_ite calls_throw calls_pure))

/-- **A cycle keeps the promise** at every call. -/
theorem applyPrepared_good (htarget : plan.document.target.name = targetName) (s : PlanStore) :
    Safe (liveContract I (Good targetName)) (Runner.applyPrepared dr unmarshal cfg plan).run
      (Ensures fun _ _ => True) s := by
  unfold Runner.applyPrepared
  refine quiet_then good_refl (fun _ _ _ h => h) (stable_const True) trivial fun canceled s' _ _ _ => ?_
  split
  · exact safe_throw
  split
  · exact safe_seq (authorize_good htarget s') fun name t _ => execute_good t
  · exact execute_good s'

end

section

variable {dr : DocumentRuntime} {unmarshal : List Char → Option Document} {targetName : String}
variable {c c' : Configuration Unit PlanCall PlanAnswer PlanStore}

theorem cycleSystem_agreement : Agreement (cycleSystem dr unmarshal targetName)
    (fun _ _ s _ t => Good targetName s t) (fun _ => UserEdit) (AtMostOneLive targetName) where
  guar_rely i j hij := absurd (Subsingleton.elim i j) hij
  env_rely _ _ _ _ h := h
  guar_inv _ _ _ _ _ hs h := h.one hs
  env_inv _ _ hs h := (Settles.good (userEdit_kept h).settles).one hs
  programs_safe := by
    rintro i p ⟨cfg, plan, htarget, rfl⟩ s -
    exact safe_discard (applyPrepared_good (I := AtMostOneLive targetName) htarget s)

/-- The plan with the UID has been live for the last time. -/
def SettledPlan (uid : Nat) (s : PlanStore) : Prop := uid < s.next ∧ ∀ o ∈ s.objects, o.uid = uid → ¬ Live o

theorem SettledPlan.good {uid : Nat} {s : PlanStore} (hst : Good targetName s t) (h : SettledPlan uid s) :
    SettledPlan uid t := by
  refine ⟨h.1.trans_le hst.next, fun x hx huid hlive => ?_⟩
  rcases hst.revived x hx hlive with ⟨y, hy, hyuid, hylive⟩ | hnew
  · exact h.2 y hy (hyuid.trans huid) hylive
  · have := h.1
    omega

/-- One step. -/
theorem settledPlan_step {uid : Nat}
    (hc : SafeConfig (cycleSystem dr unmarshal targetName) (fun _ _ s _ t => Good targetName s t)
      (fun _ => UserEdit)
      (AtMostOneLive targetName) c) (hstep : Step (cycleSystem dr unmarshal targetName) c c')
    (h : SettledPlan uid c.state) : SettledPlan uid c'.state := by
  rcases step_guaranteed hc hstep with hsame | hedit | ⟨i, e, r, hgood⟩
  · rw [hsame]
    exact h
  · have hgood : Good targetName c.state c'.state := (userEdit_kept hedit).settles.good
    exact h.good hgood
  · exact h.good hgood

end

/-- **At most one live plan for a target, and no plan is revived.** A runner applies any cycles of
one target, each of which may stop at any point; users edit the metadata of plans and delete them.
From a store with at most one live plan of the target, every reachable store has at most one; and
from then on a plan with a terminal phase is never seen in another phase again. -/
theorem one_live_plan (dr : DocumentRuntime) (unmarshal : List Char → Option Document) (targetName : String)
    (s : PlanStore) (hs : AtMostOneLive targetName s) (c : Configuration Unit PlanCall PlanAnswer PlanStore)
    (hc : Reachable (cycleSystem dr unmarshal targetName) (Configuration.idle s) c) :
    AtMostOneLive targetName c.state ∧
      ∀ o ∈ c.state.objects, terminalPlanPhase o.status.phase = true →
        ∀ c', Reachable (cycleSystem dr unmarshal targetName) c c' →
          ∀ o' ∈ c'.state.objects, o'.uid = o.uid → terminalPlanPhase o'.status.phase = true := by
  have hsafe := reachable_safe cycleSystem_agreement hs hc
  refine ⟨hsafe.1, fun o ho hterminal c' hc' => ?_⟩
  have hsettled : SettledPlan o.uid c.state := by
    refine ⟨(c.state.fresh o ho).2.2, fun x hx huid hlive => ?_⟩
    rw [eq_of_uid hx ho huid, Live, hterminal] at hlive
    simp at hlive
  -- the configurations on the way stay safe, so that every step is as promised
  have hall : SafeConfig (cycleSystem dr unmarshal targetName) (fun _ _ s _ t => Good targetName s t)
      (fun _ => UserEdit) (AtMostOneLive targetName) c' ∧ SettledPlan o.uid c'.state := by
    induction hc' with
    | refl => exact ⟨hsafe, hsettled⟩
    | tail _ hstep ih => exact ⟨safeConfig_step cycleSystem_agreement ih.1 hstep,
      settledPlan_step ih.1 hstep ih.2⟩
  intro o' ho' huid
  have hdead := hall.2.2 o' ho' huid
  unfold Live at hdead
  simpa using hdead

/-- A cycle of `edge` in which nothing is left to do. -/
def quietCycle : ApplyAction Bool :=
  Runner.applyPrepared .plain (fun _ => none) { hasStore := true }
    (preparePlan { hasStore := true } { name := "edge", zone := "example.com" } {} [])

/-- The configuration after that cycle, where one plan was approved before. -/
def afterQuiet : Configuration Unit PlanCall PlanAnswer PlanStore :=
  ((Configuration.idle (planStoreOf [approvedPlan])).start () quietCycle.run.discard).run (planServe "")
    (fun _ => false) ()

/-- The approved plan has become stale, and stays so. -/
theorem one_live_plan_quiet :
    Reachable (cycleSystem .plain (fun _ => none) "edge") (.idle (planStoreOf [approvedPlan])) afterQuiet ∧
      AtMostOneLive "edge" afterQuiet.state ∧ ∃ o ∈ afterQuiet.state.objects, o.uid = approvedPlan.uid ∧
        ∀ c', Reachable (cycleSystem .plain (fun _ => none) "edge") afterQuiet c' →
          ∀ o' ∈ c'.state.objects, o'.uid = o.uid → terminalPlanPhase o'.status.phase = true := by
  have hone : AtMostOneLive "edge" (planStoreOf [approvedPlan]) := by
    have hobjects : (planStoreOf [approvedPlan]).objects = [approvedPlan] := by decide +kernel
    intro x hx y hy _ _ _ _
    rw [hobjects, mem_singleton] at hx hy
    rw [hx, hy]
  have hprogram : (cycleSystem .plain (fun _ => none) "edge").programs () quietCycle.run.discard :=
    ⟨_, _, rfl, rfl⟩
  have hreach : Reachable (cycleSystem .plain (fun _ => none) "edge")
    (.idle (planStoreOf [approvedPlan])) afterQuiet :=
    (start_reachable .refl rfl hprogram).trans (run_reachable (planServe_exec "") _ () _)
  obtain ⟨hafter, hstays⟩ := one_live_plan .plain (fun _ => none) "edge" _ hone afterQuiet hreach
  obtain ⟨o, ho, huid, hstale⟩ : ∃ o ∈ afterQuiet.state.objects, o.uid = approvedPlan.uid ∧
    o.status.phase = .stale := by
    decide +kernel
  exact ⟨hreach, hafter, o, ho, huid, hstays o ho (by rw [hstale]; rfl)⟩

end FortigateDns
