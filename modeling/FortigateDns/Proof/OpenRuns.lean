import FortigateDns.Proof.ClaimCalls
import FortigateDns.Proof.ClaimLogic

/-!
# Claim programs under any interference

The calls without promises (`openContract`): what a program finds out about claims, whatever others
write between its calls. `quiet_safe` carries this over to a contract about the history of a run, for
programs whose calls are all of a kind that the contract permits.
-/

namespace FortigateDns

open Conc Store

/-- The calls under any interference, without promises and without a history. -/
def openContract : Contract Call Answer World := ⟨exec fun _ _ => True, Interference, fun _ _ _ _ => True⟩

theorem open_discipline : Discipline openContract (fun _ _ => True) (fun _ _ _ => True) where
  exec_le _ _ _ _ h := h
  later _ _ h := h.later
  own_of_mem _ _ _ := trivial
  own_rely _ _ := stable_const True
  quiet _ _ _ := trivial
  replace _ _ _ _ _ _ _ _ _ := trivial
  add _ _ _ _ _ _ _ := trivial

variable {c : Claim} {w : World} {α : Type}

/-- A claim that is read and has the version of a claim that was read is that claim. -/
theorem get_seen {name : String} (hc : Seen c w.store) :
    Safe openContract (Repository.get name).run (Ensures fun found t => found.name = name ∧
      Found (fun _ _ _ => True) found t ∧ (found.resourceVersion = c.resourceVersion → found = c)) w :=
  get_safe open_discipline (seen_stable open_discipline c) hc
    (fun found => (stable_const _).and ((found_stable open_discipline found).and (stable_const _)))
    fun _ _ hw' hmem hname => ⟨hname, found_of_mem open_discipline hmem, fun hv => hw'.eq hmem hv⟩

theorem revalidate_seen {name : String} (hc : Seen c w.store) :
    Safe openContract (Repository.revalidateUnique name c.resourceVersion).run
      (Ensures fun found t => found = c ∧ Seen c t.store) w := by
  refine safe_mono (Ensures.mono ?_) (revalidateUnique_rule open_discipline (fun found => found = c)
    (seen_stable open_discipline c) hc fun _ _ hw' hmem hv => hw'.eq hmem hv)
  rintro found t ⟨hfound, -, -, rfl⟩
  exact ⟨rfl, hfound.seen⟩

section

variable {S : World → Snapshot → Prop} {Φ : History → Event Call Answer World → Prop}
  {s : Logged Call Answer World}

theorem seen_logged (c : Claim) : (logged (exec S) Interference Φ).Stable fun t => Seen c t.state.store :=
  fun _ _ h hs => hs.later h.1.later

theorem history_logged (P : History → Prop) : (logged (exec S) Interference Φ).Stable fun t => P t.history := by
  intro s t h hs
  rw [h.2]
  exact hs

/-- **A program of permitted calls** does what it does, and what is known of the history stays known. -/
theorem quiet_safe {P : Call → Prop} {J : History → Prop} {x : Action α} {Q : α → World → Prop}
    (hx : x.run.Calls P)
    (hcall : ∀ e h w r w', P e → J h → exec S e w r w' → Φ h ⟨e, w, r, w'⟩ ∧ J (h ++ [⟨e, w, r, w'⟩]))
    (hs : J s.history) (h : Safe openContract x.run (Ensures Q) s.state) :
    Safe (logged (exec S) Interference Φ) x.run (Ensures fun a t => Q a t.state ∧ J t.history) s := by
  have hrestricted : Safe ⟨exec S, Interference, fun _ _ _ _ => True⟩ x.run (Ensures Q) s.state :=
    safe_restrict (fun _ _ _ _ hexec => exec_mono (fun _ _ => trivial) hexec) h
  refine safe_mono ?_ (safe_logged hx hcall hs hrestricted)
  intro r t hr
  cases r with
  | error err => trivial
  | ok a => exact hr

end

end FortigateDns
