import FortigateDns.Proof.PlanCalls

/-!
# How the stored plans change

A call or an edit replaces a plan, adds one or takes one away. What that leaves as it was is
said once, as relations between the store before and after.
-/

namespace FortigateDns

open Go Conc Store

variable {s t u : PlanStore} {o n x y : ChangePlan}
variable {e : PlanCall} {r : PlanAnswer e}

/-- `x` is `y` at some other time: the metadata and the status may differ. -/
structure SamePlan (y x : ChangePlan) : Prop where
  name : x.name = y.name
  uid : x.uid = y.uid
  plan : x.spec.plan = y.spec.plan

theorem SamePlan.refl (x : ChangePlan) : SamePlan x x := ⟨rfl, rfl, rfl⟩

theorem SamePlan.trans {z : ChangePlan} (h : SamePlan x y) (h' : SamePlan y z) : SamePlan x z :=
  ⟨h'.name.trans h.name, h'.uid.trans h.uid, h'.plan.trans h.plan⟩

theorem replaced_same (h : Replaced s t o n) (hplan : n.spec.plan = o.spec.plan) : SamePlan o n :=
  ⟨h.name, h.uid, hplan⟩

/-- Every plan comes from one with the same name, UID and spec, or is new. -/
def Descends (s t : PlanStore) : Prop :=
  s.next ≤ t.next ∧ ∀ x ∈ t.objects, (∃ y ∈ s.objects, SamePlan y x) ∨ s.next ≤ x.uid

theorem descends_refl (s : PlanStore) : Descends s s := ⟨le_rfl, fun x hx => Or.inl ⟨x, hx, .refl x⟩⟩

theorem replaced_descends (h : Replaced s t o n) (hplan : n.spec.plan = o.spec.plan) : Descends s t := by
  refine ⟨by rw [h.next]; omega, fun x hx => ?_⟩
  rcases (h.mem x).1 hx with rfl | ⟨hx, -⟩
  · exact Or.inl ⟨o, h.old, replaced_same h hplan⟩
  · exact Or.inl ⟨x, hx, .refl x⟩

theorem added_descends (h : Added s t n) : Descends s t := by
  refine ⟨by rw [h.next]; omega, fun x hx => ?_⟩
  rcases (h.mem x).1 hx with hx | rfl
  · exact Or.inl ⟨x, hx, .refl x⟩
  · exact Or.inr h.uid.ge

theorem removed_descends (h : Removed s t o) : Descends s t :=
  ⟨by rw [h.next]; omega, fun x hx => Or.inl ⟨x, ((h.mem x).1 hx).1, .refl x⟩⟩

theorem create_descends (s : PlanStore) (draft : ChangePlan) (status : PlanStatus) :
    Descends s (s.create draft status).2 := by
  rcases create_cases s draft status with ⟨e, h⟩ | ⟨n, t, h, hadd, -⟩
  · rw [h]
    exact descends_refl s
  · rw [h]
    exact added_descends hadd

theorem updateStatus_descends (s : PlanStore) (object : ChangePlan) : Descends s (s.updateStatus object).2 := by
  rcases updateStatus_changes s object with h | ⟨o, n, hrep, -, hspec, -⟩
  · rw [h]
    exact descends_refl s
  · exact replaced_descends hrep (by rw [hspec])

theorem update_descends (h : SpecImmutable s o) : Descends s (s.update o).2 := by
  rcases update_changes s o with hsame | ⟨old, n, hrep, hname, hspec, -⟩ | ⟨old, hrem⟩
  · rw [hsame]
    exact descends_refl s
  · exact replaced_descends hrep (by rw [hspec, h old hrep.old hname])
  · exact removed_descends hrem

theorem delete_descends (s : PlanStore) (name : String) (version : Nat) :
    Descends s (s.delete name version).2 := by
  rcases delete_cases s name version with ⟨r, h⟩ | ⟨r, t, o, h, hrem | ⟨n, hrep, hspec, -⟩⟩
  · rw [h]
    exact descends_refl s
  · rw [h]
    exact removed_descends hrem
  · rw [h]
    exact replaced_descends hrep (by rw [hspec])

theorem deleteLatest_descends (s : PlanStore) (name : String) : Descends s (s.deleteLatest name).2 := by
  unfold deleteLatest
  cases s.get name with
  | error e => exact descends_refl s
  | ok o => exact delete_descends s name o.resourceVersion

theorem answered_descends {α : Type} {result : Except StoreError α × PlanStore} {r : Except StoreError α}
    (h : s.Answered result r t) (hresult : Descends s result.2) : Descends s t := by
  rcases h.store with rfl | rfl
  · exact descends_refl _
  · exact hresult

/-- **A call keeps the specs.** -/
theorem planExec_descends (h : planExec e s r t) : Descends s t := by
  cases e with
  | create draft =>
    obtain ⟨now, h⟩ := h
    exact answered_descends h (create_descends s _ _)
  | updateStatus object => exact answered_descends h (updateStatus_descends s object)
  | delete name => exact answered_descends h (deleteLatest_descends s name)
  | list | get name =>
    obtain ⟨rfl, -⟩ := h
    exact descends_refl _
  | _ =>
    obtain rfl : t = s := h
    exact descends_refl _

/-- **So do others**, by the rule of the custom resource definition. -/
theorem planEdit_descends (h : PlanEdit SpecImmutable s t) : Descends s t := by
  cases h with
  | create draft => exact create_descends s draft {}
  | update object h => exact update_descends h
  | updateStatus object => exact updateStatus_descends s object
  | delete name version => exact delete_descends s name version

/-- The UID of `o` stands for its spec. -/
def SpecOf (o : ChangePlan) (s : PlanStore) : Prop :=
  o.uid < s.next ∧ ∀ x ∈ s.objects, x.uid = o.uid → x.spec.plan = o.spec.plan

theorem specOf_mem (ho : o ∈ s.objects) : SpecOf o s :=
  ⟨(s.fresh o ho).2.2, fun x hx huid => by rw [eq_of_uid hx ho huid]⟩

theorem SpecOf.descends (h : SpecOf o s) (hst : Descends s t) : SpecOf o t := by
  refine ⟨h.1.trans_le hst.1, fun x hx huid => ?_⟩
  rcases hst.2 x hx with ⟨y, hy, hsame⟩ | hnew
  · rw [hsame.plan]
    exact h.2 y hy (hsame.uid.symm.trans huid)
  · have := h.1
    omega

/-- The phase is not terminal. -/
def Live (o : ChangePlan) : Prop := terminalPlanPhase o.status.phase = false

/-- No plan is new, and no plan comes back to life. -/
def Settles (s t : PlanStore) : Prop :=
  s.next ≤ t.next ∧ ∀ x ∈ t.objects, ∃ y ∈ s.objects, SamePlan y x ∧ (Live x → Live y)

/-- No plan is new, and no status has changed. -/
def Kept (s t : PlanStore) : Prop :=
  s.next ≤ t.next ∧ ∀ x ∈ t.objects, ∃ y ∈ s.objects, SamePlan y x ∧ x.status = y.status

theorem Kept.refl (s : PlanStore) : Kept s s := ⟨le_rfl, fun x hx => ⟨x, hx, .refl x, rfl⟩⟩

theorem Kept.trans (h : Kept s t) (h' : Kept t u) : Kept s u := by
  refine ⟨h.1.trans h'.1, fun x hx => ?_⟩
  obtain ⟨y, hy, hsame, hstatus⟩ := h'.2 x hx
  obtain ⟨z, hz, hsame', hstatus'⟩ := h.2 y hy
  exact ⟨z, hz, hsame'.trans hsame, hstatus.trans hstatus'⟩

theorem Kept.settles (h : Kept s t) : Settles s t := by
  refine ⟨h.1, fun x hx => ?_⟩
  obtain ⟨y, hy, hsame, hstatus⟩ := h.2 x hx
  exact ⟨y, hy, hsame, fun hlive => by unfold Live at hlive ⊢; rw [← hstatus]; exact hlive⟩

theorem settles_refl (s : PlanStore) : Settles s s := (Kept.refl s).settles

theorem replaced_settles (h : Replaced s t o n) (hplan : n.spec.plan = o.spec.plan) (hlive : Live n → Live o) :
    Settles s t := by
  refine ⟨by rw [h.next]; omega, fun x hx => ?_⟩
  rcases (h.mem x).1 hx with rfl | ⟨hx, -⟩
  · exact ⟨o, h.old, replaced_same h hplan, hlive⟩
  · exact ⟨x, hx, .refl x, id⟩

theorem replaced_kept (h : Replaced s t o n) (hplan : n.spec.plan = o.spec.plan) (hstatus : n.status = o.status) :
    Kept s t := by
  refine ⟨by rw [h.next]; omega, fun x hx => ?_⟩
  rcases (h.mem x).1 hx with rfl | ⟨hx, -⟩
  · exact ⟨o, h.old, replaced_same h hplan, hstatus⟩
  · exact ⟨x, hx, .refl x, rfl⟩

theorem removed_kept (h : Removed s t o) : Kept s t :=
  ⟨by rw [h.next]; omega, fun x hx => ⟨x, ((h.mem x).1 hx).1, .refl x, rfl⟩⟩

theorem delete_kept (s : PlanStore) (name : String) (version : Nat) : Kept s (s.delete name version).2 := by
  rcases delete_cases s name version with ⟨r, h⟩ | ⟨r, t, o, h, hrem | ⟨n, hrep, hspec, hstatus⟩⟩
  · rw [h]
    exact .refl s
  · rw [h]
    exact removed_kept hrem
  · rw [h]
    exact replaced_kept hrep (by rw [hspec]) hstatus

/-- **Users keep the status of plans.** -/
theorem userEdit_kept (h : UserEdit s t) : Kept s t := by
  cases h with
  | annotate object himm =>
    rcases update_changes s object with hsame | ⟨old, n, hrep, hname, hspec, hstatus⟩ | ⟨old, hrem⟩
    · rw [hsame]
      exact .refl s
    · exact replaced_kept hrep (by rw [hspec, himm old hrep.old hname]) hstatus
    · exact removed_kept hrem
  | delete name version => exact delete_kept s name version

theorem userEdit_later (h : UserEdit s t) : Later s t := by
  cases h with
  | annotate object himm => exact update_later s object
  | delete name version => exact delete_later s name version

theorem deleteLatest_kept (s : PlanStore) (name : String) : Kept s (s.deleteLatest name).2 := by
  unfold deleteLatest
  cases s.get name with
  | error e => exact .refl s
  | ok o => exact delete_kept s name o.resourceVersion

/-- **A call that writes no phase** keeps the status of plans. -/
theorem keeping_kept (he : e.Keeping) (h : planExec e s r t) : Kept s t := by
  cases e with
  | create draft => exact he.elim
  | apply operations dryRun => exact he.elim
  | updateStatus object => exact he.elim
  | delete name =>
    rcases Answered.store h with rfl | rfl
    · exact .refl _
    · exact deleteLatest_kept s name
  | list | get name =>
    obtain ⟨rfl, -⟩ := h
    exact .refl _
  | _ =>
    obtain rfl : t = s := h
    exact .refl _

/-- **A call of the settling kind** brings no plan to life. -/
theorem settling_settles (he : e.Settling) (h : planExec e s r t) : Settles s t := by
  cases e with
  | updateStatus object =>
    rcases Answered.store h with rfl | rfl
    · exact settles_refl _
    · rcases updateStatus_changes s object with hsame | ⟨o, n, hrep, -, hspec, hstatus⟩
      · rw [hsame]
        exact settles_refl s
      · refine replaced_settles hrep (by rw [hspec]) fun hlive => ?_
        have hterminal : terminalPlanPhase object.status.phase = true := he
        unfold Live at hlive
        rw [hstatus, hterminal] at hlive
        simp at hlive
  | create draft => exact he.elim
  | apply operations dryRun => exact he.elim
  | _ => exact (keeping_kept (by trivial) h).settles

end FortigateDns
