import FortigateDns.Go.Sort
import FortigateDns.Proof.Approval

/-!
# What pruning deletes

`Prune` sorts the completed plans of a target and deletes all but the newest. Its comment protects
interrupted plans, but the phase classification that it shares with the other code counts them as
completed.
-/

namespace FortigateDns

open Go Conc Store ChangePlanStore List

variable {name : String} {r : PlanAnswer (.delete name)} {a b : ChangePlan}

/-- The plans that are asked to be deleted. -/
def deleteRequests (τ : List PlanEvent) : List String :=
  τ.filterMap fun ev =>
    match ev.call with
    | .delete name => some name
    | _ => none

@[simp] theorem deleteRequests_delete (name : String) (s t : PlanStore) (r : PlanAnswer (.delete name))
    (τ : List PlanEvent) : deleteRequests (⟨.delete name, s, r, t⟩ :: τ) = name :: deleteRequests τ := rfl

/-- A delete takes away no other plan. -/
theorem delete_keeps {s t : PlanStore} (h : planExec (.delete name) s r t) {o : ChangePlan} (ho : o ∈ s.objects)
    (hname : o.name ≠ name) : o ∈ t.objects := by
  rcases h with ⟨-, rfl⟩ | ⟨-, rfl | rfl⟩
  · exact mem_deleteLatest ho hname
  · exact ho
  · exact mem_deleteLatest ho hname

/-- A delete brings no plan. -/
theorem delete_names {s t : PlanStore} (h : planExec (.delete name) s r t) {x : ChangePlan} (hx : x ∈ t.objects) :
    ∃ o ∈ s.objects, o.name = x.name := by
  have hresult : ∀ x ∈ (s.deleteLatest name).2.objects, ∃ o ∈ s.objects, o.name = x.name := by
    intro x hx
    rcases deleteLatest_cases s name with ⟨r, heq⟩ | ⟨r, t, o, heq, hrem | ⟨n, hrep, -⟩⟩
    · rw [heq] at hx
      exact ⟨x, hx, rfl⟩
    · rw [heq] at hx
      exact ⟨x, ((hrem.mem x).1 hx).1, rfl⟩
    · rw [heq] at hx
      rcases (hrep.mem x).1 hx with rfl | ⟨hx, -⟩
      · exact ⟨o, hrep.old, hrep.name.symm⟩
      · exact ⟨x, hx, rfl⟩
  rcases h with ⟨-, rfl⟩ | ⟨-, rfl | rfl⟩
  · exact hresult x hx
  · exact ⟨x, hx, rfl⟩
  · exact hresult x hx

/-- A delete that succeeds leaves no plan of the name, unless finalizers hold it. -/
theorem delete_gone {s t : PlanStore} (h : planExec (.delete name) s r t) (hr : r = .ok () ∨ r = .error .notFound)
    (hfinal : ∀ o ∈ s.objects, o.name = name → o.finalizers = []) : ∀ x ∈ t.objects, x.name ≠ name := by
  rcases h with ⟨-, rfl⟩ | ⟨rfl, -⟩
  · intro x hx hxname
    obtain ⟨o, ho, honame⟩ : ∃ o ∈ s.objects, o.name = name := by
      obtain ⟨o, ho, hox⟩ := delete_names (.inl ⟨rfl, rfl⟩) hx
      exact ⟨o, ho, hox.trans hxname⟩
    subst honame
    rw [deleteLatest_remove ho (hfinal o ho rfl)] at hx
    obtain ⟨hx, hne⟩ := ((removed_remove ho).mem x).1 hx
    exact hne (eq_of_name hx ho hxname)
  · rcases hr with hr | hr <;> cases hr

/-- What a run of the loop asks for and leaves. -/
structure PruneRun (items : List ChangePlan) (s : PlanStore) (τ : List PlanEvent) (t : PlanStore) : Prop where
  requests : deleteRequests τ <+: items.map Object.name
  kept : ∀ o ∈ s.objects, o.name ∉ deleteRequests τ → o ∈ t.objects
  names : ∀ x ∈ t.objects, ∃ o ∈ s.objects, o.name = x.name

/-- The loop asks for deletions in the order of its list, and takes away nothing else. -/
theorem pruneAll_run {items : List ChangePlan} {s t : PlanStore} {τ : List PlanEvent}
    {q : Prog PlanCall PlanAnswer (Except PlanError Unit)} (h : Run planExec Alone (pruneAll items).run s τ q t) :
    PruneRun items s τ t ∧ (q = .ret (.ok ()) → deleteRequests τ = items.map Object.name ∧
      ((∀ o ∈ s.objects, o.name ∈ items.map Object.name → o.finalizers = []) →
        ∀ x ∈ t.objects, x.name ∉ items.map Object.name)) := by
  induction items generalizing s τ with
  | nil =>
    obtain ⟨rfl, rfl, rfl⟩ := run_alone_ret h
    exact ⟨⟨prefix_rfl, fun o ho _ => ho, fun x hx => ⟨x, hx, rfl⟩⟩, fun _ => ⟨rfl, fun _ x _ => not_mem_nil⟩⟩
  | cons item rest ih =>
    rcases run_alone_call h with ⟨rfl, rfl, rfl⟩ | ⟨r, s', τ', hexec, rfl, hrest⟩
    · exact ⟨⟨ nil_prefix, fun o ho _ => ho, fun x hx => ⟨x, hx, rfl⟩⟩, fun hq => by cases hq⟩
    · -- an answer other than success and absence ends the loop
      have hcases : ((r = .ok () ∨ r = .error .notFound) ∧ Run planExec Alone (pruneAll rest).run s' τ' q t) ∨
          ∃ err, Run planExec Alone (throw (.store err) : PlanAction Unit).run s' τ' q t := by
        cases r with
        | ok u => exact .inl ⟨.inl rfl, hrest⟩
        | error err =>
          cases err with
          | notFound => exact .inl ⟨.inr rfl, hrest⟩
          | _ => exact .inr ⟨_, hrest⟩
      rcases hcases with ⟨hr, hrest⟩ | ⟨err, hrest⟩
      · obtain ⟨hrun, hend⟩ := ih hrest
        refine ⟨⟨?_, fun o ho hnot => ?_, fun x hx => ?_⟩, fun hq => ?_⟩
        · rw [deleteRequests_delete, map_cons]
          exact (prefix_cons_inj _).2 hrun.requests
        · rw [deleteRequests_delete, mem_cons, not_or] at hnot
          exact hrun.kept o (delete_keeps hexec ho hnot.1) hnot.2
        · obtain ⟨y, hy, hyx⟩ := hrun.names x hx
          obtain ⟨o, ho, hoy⟩ := delete_names hexec hy
          exact ⟨o, ho, hoy.trans hyx⟩
        · obtain ⟨hrequests, hgone⟩ := hend hq
          refine ⟨by rw [deleteRequests_delete, map_cons, hrequests], fun hfinal x hx => ?_⟩
          rw [map_cons, mem_cons, not_or]
          have hfirst := delete_gone hexec hr fun o ho hname => hfinal o ho (by rw [hname]; exact mem_cons_self)
          obtain ⟨y, hy, hyx⟩ := hrun.names x hx
          refine ⟨fun hxname => hfirst y hy (hyx.trans hxname), ?_⟩
          by_cases hxitem : x.name = item.name
          · exact absurd (hyx.trans hxitem) (hfirst y hy)
          · refine hgone (fun o ho hmem => ?_) x hx
            by_cases hitem : o.name = item.name
            · exact absurd hitem (hfirst o ho)
            · -- what the first delete did not touch is as it was
              obtain ⟨o', ho', hsame⟩ := delete_names hexec ho
              have heq : o' = o := eq_of_name (delete_keeps hexec ho' (by rw [hsame]; exact hitem)) ho hsame
              exact hfinal o (heq ▸ ho') (mem_cons_of_mem _ hmem)
      · obtain ⟨rfl, rfl, rfl⟩ := run_alone_ret hrest
        refine ⟨⟨?_, fun o ho hnot => ?_, fun x hx => delete_names hexec hx⟩, fun hq => by cases hq⟩
        · rw [deleteRequests_delete, map_cons]
          exact (prefix_cons_inj _).2 nil_prefix
        · rw [deleteRequests_delete, mem_cons, not_or] at hnot
          exact delete_keeps hexec ho hnot.1

theorem newerPlan_iff : newerPlan a b = true ↔
    b.spec.creationTimestamp < a.spec.creationTimestamp ∨
      a.spec.creationTimestamp = b.spec.creationTimestamp ∧ b.name ≤ a.name := by
  unfold newerPlan
  split
  case isTrue h => simp [h]
  case isFalse h => simp [h]

theorem newerPlan_total (a b : ChangePlan) : newerPlan a b = true ∨ newerPlan b a = true := by
  rw [newerPlan_iff, newerPlan_iff]
  rcases lt_trichotomy a.spec.creationTimestamp b.spec.creationTimestamp with h | h | h
  · exact .inr (.inl h)
  · rcases le_total a.name b.name with hname | hname
    · exact .inr (.inr ⟨h.symm, hname⟩)
    · exact .inl (.inr ⟨h, hname⟩)
  · exact .inl (.inl h)

theorem newerPlan_trans {c : ChangePlan} (hab : newerPlan a b = true) (hbc : newerPlan b c = true) :
    newerPlan a c = true := by
  rw [newerPlan_iff] at hab hbc ⊢
  rcases hab with hab | ⟨hab, hnab⟩ <;> rcases hbc with hbc | ⟨hbc, hnbc⟩
  · exact .inl (hbc.trans hab)
  · exact .inl (hbc ▸ hab)
  · exact .inl (hab ▸ hbc)
  · exact .inr ⟨hab.trans hbc, hnbc.trans hnab⟩

theorem newerPlan_antisymm (hab : newerPlan a b = true) (hba : newerPlan b a = true) : a.name = b.name := by
  rw [newerPlan_iff] at hab hba
  rcases hab with hab | ⟨hab, hnab⟩ <;> rcases hba with hba | ⟨hba, hnba⟩
  · omega
  · omega
  · omega
  · exact le_antisymm hnba hnab

/-- Plans with the newest first, ties by name. -/
def newestFirst (plans : List ChangePlan) : List ChangePlan := plans.insertionSort fun a b => newerPlan a b

theorem newestFirst_perm (plans : List ChangePlan) : (newestFirst plans).Perm plans := perm_insertionSort _ _

theorem newestFirst_sorted (plans : List ChangePlan) :
    (newestFirst plans).Pairwise fun a b => newerPlan a b = true := by
  have : Std.Total fun a b : ChangePlan => newerPlan a b = true := ⟨newerPlan_total⟩
  have : IsTrans ChangePlan fun a b => newerPlan a b = true := ⟨fun _ _ _ => newerPlan_trans⟩
  exact pairwise_insertionSort _ _

/-- Plans with distinct names have one order. -/
theorem newestFirst_eq {plans plans' : List ChangePlan} (h : plans.Perm plans')
    (hnd : (plans.map Object.name).Nodup) : newestFirst plans = newestFirst plans' := by
  have hperm : (newestFirst plans).Perm (newestFirst plans') :=
    (newestFirst_perm plans).trans (h.trans (newestFirst_perm plans').symm)
  refine hperm.eq_of_pairwise (fun a b ha hb hab hba => ?_) (newestFirst_sorted plans) (newestFirst_sorted plans')
  have ha' : a ∈ plans := (newestFirst_perm plans).mem_iff.1 ha
  have hb' : b ∈ plans := h.mem_iff.2 ((newestFirst_perm plans').mem_iff.1 hb)
  exact inj_on_of_nodup_map hnd ha' hb' (newerPlan_antisymm hab hba)

/-- The plans of a target in some phases. -/
def plansIn (phases : PlanPhase → Bool) (targetName : String) (plans : List ChangePlan) : List ChangePlan :=
  plans.filter fun plan => plan.spec.plan.targetRef = targetName && phases plan.status.phase

/-- The plans that are not among the `retention` newest. -/
def outdated (phases : PlanPhase → Bool) (targetName : String) (retention : Nat) (s : PlanStore) :
    List ChangePlan :=
  (newestFirst (plansIn phases targetName s.objects)).drop retention

variable {s t : PlanStore} {τ : List PlanEvent} {targetName : String} {retention : Nat}

theorem plansIn_names (phases : PlanPhase → Bool) :
    ((plansIn phases targetName s.objects).map Object.name).Nodup :=
  s.names_nodup.sublist (filter_sublist.map _)

/-- **A run of `Prune`** runs the loop over the outdated ones of the plans it takes for completed. -/
theorem prune_run {q : Prog PlanCall PlanAnswer (Except PlanError Unit)}
    (h : Run planExec Alone (prune targetName retention).run s τ q t) :
    (deleteRequests τ = [] ∧ t = s ∧ q ≠ .ret (.ok ())) ∨
      ∃ τ', deleteRequests τ = deleteRequests τ' ∧
        Run planExec Alone (pruneAll (outdated terminalPlanPhase targetName retention s)).run s τ' q t := by
  unfold prune at h
  rw [if_neg (by omega)] at h
  rcases run_alone_call h with ⟨rfl, rfl, rfl⟩ | ⟨r, s', τ', ⟨rfl, hlist⟩, rfl, hrest⟩
  · exact .inl ⟨rfl, rfl, by rintro ⟨⟩⟩
  · rcases hlist with ⟨items, hperm, rfl⟩ | rfl
    · refine .inr ⟨τ', rfl, ?_⟩
      -- the order in which the plans were listed does not matter
      have hterminal : (items.filter fun item => item.spec.plan.targetRef = targetName).filter
          (fun item => terminalPlanPhase item.status.phase) = plansIn terminalPlanPhase targetName items := by
        rw [filter_filter]
        refine filter_congr fun item _ => Bool.and_comm _ _
      have hsorted : newestFirst (plansIn terminalPlanPhase targetName items) =
          newestFirst (plansIn terminalPlanPhase targetName s'.objects) :=
        (newestFirst_eq (hperm.filter _).symm (plansIn_names _)).symm
      unfold outdated
      rw [← hsorted, ← hterminal]
      exact hrest
    · obtain ⟨rfl, rfl, rfl⟩ := run_alone_ret hrest
      exact .inl ⟨rfl, rfl, by rintro ⟨⟩⟩

/-- The completed phases that are not protected. -/
def completedPhase : PlanPhase → Bool
  | .succeeded | .failed | .stale => true
  | .unset | .pendingApproval | .approved | .applying | .interrupted => false

/-- **Protected plans are kept**: only completed plans of the target are asked to be deleted, and of those
none of the newest; and nothing else goes. -/
structure Protects (targetName : String) (retention : Nat) (s : PlanStore) (τ : List PlanEvent) (t : PlanStore) :
    Prop where
  requests : ∀ o ∈ s.objects, o.name ∈ deleteRequests τ →
    o.spec.plan.targetRef = targetName ∧ completedPhase o.status.phase = true ∧
      o ∈ outdated completedPhase targetName retention s
  kept : ∀ o ∈ s.objects, o.name ∉ deleteRequests τ → o ∈ t.objects

/-- **All the others are removed**: each outdated plan is deleted, and gone unless finalizers hold a plan. -/
structure Removes (targetName : String) (retention : Nat) (s : PlanStore) (τ : List PlanEvent) (t : PlanStore) :
    Prop where
  requested : ∀ o ∈ outdated completedPhase targetName retention s, o.name ∈ deleteRequests τ
  gone : (∀ o ∈ s.objects, o.finalizers = []) →
    ∀ o ∈ outdated completedPhase targetName retention s, o ∉ t.objects

/-- The contract of `Prune` in every run that nobody interferes with, also one that stops early. -/
def PrunesSafely (targetName : String) (retention : Nat) (s : PlanStore) : Prop :=
  (∀ τ q t, Run planExec Alone (prune targetName retention).run s τ q t → Protects targetName retention s τ t) ∧
    ∀ τ t, Run planExec Alone (prune targetName retention).run s τ (.ret (.ok ())) t →
      Removes targetName retention s τ t

theorem mem_outdated {phases : PlanPhase → Bool} {o : ChangePlan}
    (h : o ∈ outdated phases targetName retention s) :
    o ∈ s.objects ∧ o.spec.plan.targetRef = targetName ∧ phases o.status.phase = true := by
  have hmem := (newestFirst_perm _).mem_iff.1 (mem_of_mem_drop h)
  obtain ⟨ho, hphase⟩ := mem_filter.1 hmem
  rw [Bool.and_eq_true, decide_eq_true_eq] at hphase
  exact ⟨ho, hphase⟩

/-- Without interrupted plans, or with nothing to prune, the two classifications agree. -/
theorem outdated_eq (h : (∀ o ∈ s.objects, o.spec.plan.targetRef = targetName → o.status.phase ≠ .interrupted) ∨
      (plansIn terminalPlanPhase targetName s.objects).length ≤ retention) :
    outdated terminalPlanPhase targetName retention s = outdated completedPhase targetName retention s := by
  unfold outdated
  rcases h with hnone | hfew
  · congr 2
    refine filter_congr fun o ho => ?_
    by_cases htarget : o.spec.plan.targetRef = targetName
    · have hphase := hnone o ho htarget
      cases hp : o.status.phase <;> simp_all [terminalPlanPhase, completedPhase]
    · simp [htarget]
  · have hsub : (plansIn completedPhase targetName s.objects).length ≤
        (plansIn terminalPlanPhase targetName s.objects).length := by
      unfold plansIn
      rw [← countP_eq_length_filter, ← countP_eq_length_filter]
      refine countP_mono_left fun o _ ho => ?_
      cases hp : o.status.phase <;> simp_all [terminalPlanPhase, completedPhase]
    rw [drop_eq_nil_of_le, drop_eq_nil_of_le]
    · rw [(newestFirst_perm _).length_eq]
      omega
    · rw [(newestFirst_perm _).length_eq]
      omega

theorem prune_safely
    (h : outdated terminalPlanPhase targetName retention s = outdated completedPhase targetName retention s) :
    PrunesSafely targetName retention s := by
  refine ⟨fun τ q t hrun => ?_, fun τ t hrun => ?_⟩
  · rcases prune_run hrun with ⟨hnone, rfl, -⟩ | ⟨τ', hsame, hloop⟩
    · refine ⟨fun o _ ho => ?_, fun o ho _ => ho⟩
      rw [hnone] at ho
      exact absurd ho not_mem_nil
    · obtain ⟨hall, -⟩ := pruneAll_run hloop
      refine ⟨fun o ho hname => ?_, fun o ho hname => hall.kept o ho (hsame ▸ hname)⟩
      rw [hsame] at hname
      obtain ⟨x, hx, hxo⟩ := mem_map.1 (hall.requests.subset hname)
      have heq : x = o := eq_of_name (mem_outdated hx).1 ho hxo
      rw [h] at hx
      subst heq
      exact ⟨(mem_outdated hx).2.1, (mem_outdated hx).2.2, hx⟩
  · rcases prune_run hrun with ⟨-, -, hq⟩ | ⟨τ', hsame, hloop⟩
    · exact absurd rfl hq
    · obtain ⟨-, hend⟩ := pruneAll_run hloop
      obtain ⟨hrequests, hgone⟩ := hend rfl
      rw [h] at hrequests hgone
      refine ⟨fun o ho => ?_, fun hfinal o ho hot => ?_⟩
      · rw [hsame, hrequests]
        exact mem_map_of_mem ho
      · exact hgone (fun x hx _ => hfinal x hx) o hot (mem_map_of_mem ho)

/-- A loop whose deletes all reach the server runs to its end. -/
theorem pruneAll_completes (items : List ChangePlan) (s : PlanStore) :
    ∃ τ t, Run planExec Alone (pruneAll items).run s τ (.ret (.ok ())) t := by
  induction items generalizing s with
  | nil => exact ⟨[], s, .stop _ _⟩
  | cons item rest ih =>
    obtain ⟨τ, t, hrest⟩ := ih (s.deleteLatest item.name).2
    have hexec : planExec (.delete item.name) s (s.deleteLatest item.name).1 (s.deleteLatest item.name).2 :=
      .inl ⟨rfl, rfl⟩
    have hanswer := deleteLatest_answer s item.name
    generalize (s.deleteLatest item.name).1 = r at hexec hanswer
    rcases hanswer with rfl | rfl
    · exact ⟨_, t, .call hexec hrest⟩
    · exact ⟨_, t, .call hexec hrest⟩

/-- A run of `Prune` that ends well, and what it asks for. -/
theorem prune_completes (targetName : String) (retention : Nat) (s : PlanStore) :
    ∃ τ t, Run planExec Alone (prune targetName retention).run s τ (.ret (.ok ())) t ∧
      deleteRequests τ = (outdated terminalPlanPhase targetName retention s).map Object.name := by
  have hlist : planExec .list s (.ok s.objects) s := ⟨rfl, .inl ⟨_, .refl _, rfl⟩⟩
  obtain ⟨τ, t, hrun⟩ : ∃ τ t, Run planExec Alone (prune targetName retention).run s τ (.ret (.ok ())) t := by
    obtain ⟨τ, t, hrest⟩ := pruneAll_completes
      (((s.objects.filter fun item => item.spec.plan.targetRef = targetName).filter
        fun item => terminalPlanPhase item.status.phase).insertionSort
          (fun a b => newerPlan a b) |>.drop retention) s
    unfold prune
    rw [if_neg (by omega)]
    exact ⟨_, t, .call hlist hrest⟩
  refine ⟨τ, t, hrun, ?_⟩
  rcases prune_run hrun with ⟨-, -, hq⟩ | ⟨τ', hsame, hloop⟩
  · exact absurd rfl hq
  · rw [hsame]
    exact ((pruneAll_run hloop).2 rfl).1

/-- **Pruning keeps protected audit evidence if and only if** no plan of the target is interrupted or
there are no more plans than the retention allows. -/
theorem prune_protects (targetName : String) (retention : Nat) (s : PlanStore) :
    PrunesSafely targetName retention s ↔
      (∀ o ∈ s.objects, o.spec.plan.targetRef = targetName → o.status.phase ≠ .interrupted) ∨
        (plansIn terminalPlanPhase targetName s.objects).length ≤ retention := by
  refine ⟨fun h => ?_, fun h => prune_safely (outdated_eq h)⟩
  by_contra hcon
  rw [not_or, not_le] at hcon
  obtain ⟨hsome, hmany⟩ := hcon
  obtain ⟨τ, t, hrun, hrequests⟩ := prune_completes targetName retention s
  have hprotects := h.1 τ _ t hrun
  have hremoves := h.2 τ t hrun
  -- the outdated plans of the two classifications would be the same ones
  have hsame : (outdated terminalPlanPhase targetName retention s).Perm
      (outdated completedPhase targetName retention s) := by
    have hnd : ∀ phases, (outdated phases targetName retention s).Nodup := fun phases =>
      (((newestFirst_perm _).nodup_iff.2 (List.Nodup.of_map _ (plansIn_names phases))).sublist (drop_sublist _ _))
    refine (perm_ext_iff_of_nodup (hnd _) (hnd _)).2 fun o => ⟨fun ho => ?_, fun ho => ?_⟩
    · have hname : o.name ∈ deleteRequests τ := by
        rw [hrequests]
        exact mem_map_of_mem ho
      exact (hprotects.requests o (mem_outdated ho).1 hname).2.2
    · have hname := hremoves.requested o ho
      rw [hrequests] at hname
      obtain ⟨x, hx, hxo⟩ := mem_map.1 hname
      rwa [eq_of_name (mem_outdated ho).1 (mem_outdated hx).1 hxo.symm]
  -- but there is one interrupted plan more among the first kind
  have hfewer : (plansIn completedPhase targetName s.objects).length <
      (plansIn terminalPlanPhase targetName s.objects).length := by
    rw [not_forall] at hsome
    obtain ⟨o, hsome⟩ := hsome
    simp only [not_forall, not_not] at hsome
    obtain ⟨ho, htarget, hphase⟩ := hsome
    have hsplit : plansIn completedPhase targetName s.objects =
        (plansIn terminalPlanPhase targetName s.objects).filter fun plan => completedPhase plan.status.phase := by
      unfold plansIn
      rw [filter_filter]
      refine filter_congr fun plan _ => ?_
      cases hp : plan.status.phase <;> simp [completedPhase, terminalPlanPhase]
    rw [hsplit]
    refine length_filter_lt_length_iff_exists.2 ⟨o, mem_filter.2 ⟨ho, ?_⟩, ?_⟩
    · simp [htarget, hphase, terminalPlanPhase]
    · simp [hphase, completedPhase]
  have hlength := hsame.length_eq
  unfold outdated at hlength
  rw [length_drop, length_drop, (newestFirst_perm _).length_eq, (newestFirst_perm _).length_eq] at hlength
  omega

/-- A plan whose apply was interrupted. -/
def interruptedPlan : ChangePlan := { approvedPlan with status := { phase := .interrupted } }

/-- With no retention an interrupted plan is deleted. -/
theorem prune_deletes_interrupted :
    ∃ τ t, Run planExec Alone (prune "edge" (0 : Nat)).run (planStoreOf [interruptedPlan]) τ (.ret (.ok ())) t ∧
      ∃ o ∈ (planStoreOf [interruptedPlan]).objects, o.status.phase = .interrupted ∧ o.name ∈ deleteRequests τ ∧
        o ∉ t.objects := by
  obtain ⟨τ, t, hrun, hrequests⟩ := prune_completes "edge" 0 (planStoreOf [interruptedPlan])
  have houtdated : (outdated terminalPlanPhase "edge" 0 (planStoreOf [interruptedPlan])).map Object.name =
    ["edge-1"] := by
    decide +kernel
  have hstored : ∃ o ∈ (planStoreOf [interruptedPlan]).objects, o.status.phase = .interrupted ∧
    o.name = "edge-1" := by
    decide +kernel
  have hfinal : ∀ o ∈ (planStoreOf [interruptedPlan]).objects, o.finalizers = [] := by decide +kernel
  rw [houtdated] at hrequests
  obtain ⟨o, ho, hphase, hname⟩ := hstored
  refine ⟨τ, t, hrun, o, ho, hphase, by rw [hrequests, hname]; exact mem_singleton_self _, fun hot => ?_⟩
  rcases prune_run hrun with ⟨-, -, hq⟩ | ⟨τ', -, hloop⟩
  · exact hq rfl
  · have hgone := ((pruneAll_run hloop).2 rfl).2 (fun x hx _ => hfinal x hx) o hot
    rw [houtdated, hname] at hgone
    exact hgone (mem_singleton_self _)

end FortigateDns
