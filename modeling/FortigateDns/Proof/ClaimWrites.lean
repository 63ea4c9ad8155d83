import FortigateDns.Spec.World

/-!
# What a call leaves in the claim store

A claim that is stored after a call was there before, or the call has written it.
-/

namespace FortigateDns

open Conc Store

/-- **What a call has written**: the claim that it has put in the store. -/
inductive WroteClaim : Call → World → Claim → Prop
  | create {draft n : Claim} {w : World} (hnew : n.uid = w.store.next) (hstatus : n.status = {}) :
      WroteClaim (.create draft) w n
  | update {req o n : Claim} {w : World} (ho : o ∈ w.store.objects)
      (hver : req.resourceVersion = o.resourceVersion)
      (hn : Rewritten o n req.finalizers req.spec o.status) : WroteClaim (.update req) w n
  | updateStatus {req o n : Claim} {w : World} (ho : o ∈ w.store.objects)
      (hver : req.resourceVersion = o.resourceVersion) (hn : Rewritten o n o.finalizers o.spec req.status) :
      WroteClaim (.updateStatus req) w n
  | delete {name : String} {version : Nat} {o n : Claim} {w : World} (ho : o ∈ w.store.objects)
      (huid : n.uid = o.uid)
      (hspec : n.spec = o.spec) (hstatus : n.status = o.status) : WroteClaim (.delete name version) w n

variable {S : World → Snapshot → Prop} {e : Call} {w w' : World} {r : Answer e} {c n o req : Claim}

/-- A write leaves the store as it was, or as its result says. -/
theorem outcome_store {α : Type} {result : Except StoreError α × ClaimStore} {r : Except StoreError α}
    (h : Outcome w result r w') : w'.store = w.store ∨ w'.store = result.2 := by
  rcases h with ⟨-, rfl⟩ | ⟨-, rfl | rfl⟩
  · exact .inr rfl
  · exact .inl rfl
  · exact .inr rfl

theorem outcome_ok {α : Type} {result : Except StoreError α × ClaimStore} {a : α}
    (h : Outcome w result (.ok a) w') : result = (.ok a, w'.store) := by
  rcases h with ⟨hr, rfl⟩ | ⟨hr, -⟩
  · exact Prod.ext hr.symm rfl
  · cases hr

/-- The calls that do not write claims. -/
theorem exec_store (hexec : exec S e w r w') :
    w'.store = w.store ∨ (∃ draft, e = .create draft) ∨ (∃ req, e = .update req) ∨
      (∃ req, e = .updateStatus req) ∨
      ∃ name version, e = .delete name version := by
  cases e with
  | get name => exact .inl (by rw [hexec.1])
  | list => exact .inl (by rw [hexec.1])
  | now => exact .inl (by rw [show w' = w from hexec])
  | snapshot => exact .inl (by rw [hexec.1])
  | canceled => exact .inl (by rw [show w' = w from hexec])
  | revoked => exact .inl (by rw [show w' = w from hexec])
  | apply operation => exact .inl hexec
  | post endpoint origin =>
    rcases hexec with ⟨id, rfl⟩ | ⟨rfl, -⟩
    · exact .inl rfl
    · exact .inl rfl
  | create draft => exact .inr (.inl ⟨draft, rfl⟩)
  | update req => exact .inr (.inr (.inl ⟨req, rfl⟩))
  | updateStatus req => exact .inr (.inr (.inr (.inl ⟨req, rfl⟩)))
  | delete name version => exact .inr (.inr (.inr (.inr ⟨name, version, rfl⟩)))

/-- **A claim that is stored after a call** was there before, or the call has written it. -/
theorem exec_wrote (hexec : exec S e w r w') (hn : n ∈ w'.store.objects) :
    n ∈ w.store.objects ∨ WroteClaim e w n := by
  rcases exec_store hexec with hsame | ⟨draft, rfl⟩ | ⟨req, rfl⟩ | ⟨req, rfl⟩ | ⟨name, version, rfl⟩
  · rw [hsame] at hn
    exact .inl hn
  · rcases outcome_store hexec with hsame | hsame
    · rw [hsame] at hn
      exact .inl hn
    rw [hsame] at hn
    rcases create_cases w.store draft {} with ⟨err, hcr⟩ | ⟨m, t, hcr, hadd, -, -, hstatus⟩
    · rw [hcr] at hn
      exact .inl hn
    · rw [hcr] at hn
      rcases (hadd.mem n).1 hn with hold | rfl
      · exact .inl hold
      · exact .inr (.create hadd.uid hstatus)
  · rcases outcome_store hexec with hsame | hsame
    · rw [hsame] at hn
      exact .inl hn
    rw [hsame] at hn
    rcases update_found w.store req with ⟨err, hup⟩ | ⟨o, ho, -, hver, hput⟩
    · rw [hup] at hn
      exact .inl hn
    rw [hput] at hn
    exact (mem_put ho hn).imp_right (.update ho hver)
  · rcases outcome_store hexec with hsame | hsame
    · rw [hsame] at hn
      exact .inl hn
    rw [hsame] at hn
    rcases updateStatus_found w.store req with ⟨err, hup⟩ | ⟨o, ho, hver, hput⟩
    · rw [hup] at hn
      exact .inl hn
    rw [hput] at hn
    exact (mem_put ho hn).imp_right (.updateStatus ho hver)
  · rcases outcome_store hexec with hsame | hsame
    · rw [hsame] at hn
      exact .inl hn
    rw [hsame] at hn
    rcases delete_cases w.store name version with
      ⟨err, hdel⟩ | ⟨err, t, o, hdel, hrem | ⟨m, hrep, hspec, hstatus⟩⟩
    · rw [hdel] at hn
      exact .inl hn
    · rw [hdel] at hn
      exact .inl ((hrem.mem n).1 hn).1
    · rw [hdel] at hn
      rcases (hrep.mem n).1 hn with rfl | ⟨hold, -⟩
      · exact .inr (.delete hrep.old hrep.uid hspec hstatus)
      · exact .inl hold

/-- An update that is based on a claim that was read. -/
theorem wrote_update (h : WroteClaim (.update req) w n) (hc : Seen c w.store)
    (hv : req.resourceVersion = c.resourceVersion) :
    c ∈ w.store.objects ∧ Rewritten c n req.finalizers req.spec c.status := by
  cases h with
  | update ho hver hn =>
    obtain rfl := hc.eq ho (hver.symm.trans hv)
    exact ⟨ho, hn⟩

theorem wrote_updateStatus (h : WroteClaim (.updateStatus req) w n) (hc : Seen c w.store)
    (hv : req.resourceVersion = c.resourceVersion) :
    c ∈ w.store.objects ∧ Rewritten c n c.finalizers c.spec req.status := by
  cases h with
  | updateStatus ho hver hn =>
    obtain rfl := hc.eq ho (hver.symm.trans hv)
    exact ⟨ho, hn⟩

/-- **The answer to an update** that is based on a claim that was read is that claim, rewritten. -/
theorem update_answered (hexec : exec S (.update req) w (.ok n) w') (hc : Seen c w.store)
    (hv : req.resourceVersion = c.resourceVersion) :
    c ∈ w.store.objects ∧ Rewritten c n req.finalizers req.spec c.status ∧ Seen n w'.store := by
  have hres := outcome_ok hexec
  rcases update_cases hc hv with ⟨err, hup⟩ | ⟨ho, hput⟩
  · rw [hup] at hres
    cases (Prod.mk.inj hres).1
  obtain ⟨m, t, hmade, hm, hseen, -⟩ := put_rewritten ho req.finalizers req.spec c.status
  rw [hput, hmade] at hres
  obtain ⟨hmn, hstore⟩ := Prod.mk.inj hres
  obtain rfl := Except.ok.inj hmn
  rw [← hstore]
  exact ⟨ho, hm, hseen⟩

end FortigateDns
