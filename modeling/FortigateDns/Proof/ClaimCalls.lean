import FortigateDns.Conc.Trace
import FortigateDns.Spec.World

/-!
# The calls of the claim protocol

Which calls the programs of the repository make (`Storing`), and what the history of a run
says: the claims that were read (`claimReads`) and the snapshot that was taken last
(`lastSnapshot`). Whatever others write, the store only moves on (`Interference.later`).
-/

namespace FortigateDns

open Go Conc Store

variable {α : Type} {name revision targetName : String} {version : Nat} {c : Claim}
variable {request : Repository.ReserveRequest} {snapshot : Snapshot}

theorem calls_checked {P : Call → Prop} (x : Except OwnershipError α) : (checked x).run.Calls P := by
  cases x with
  | error err => exact calls_throw
  | ok a => exact calls_pure

theorem calls_written {P : Call → Prop} (x : Except StoreError α) : (written x).run.Calls P := by
  cases x with
  | error err => exact calls_throw
  | ok a => exact calls_pure

theorem calls_read {P : Call → Prop} (x : Except StoreError α) : (Repository.read x).run.Calls P := by
  cases x with
  | ok a => exact calls_pure
  | error err => cases err <;> exact calls_throw

/-- Reading claims and marking them as conflicting is permitted. -/
structure Marking (P : Call → Prop) : Prop where
  get : ∀ name, P (.get name)
  list : P .list
  now : P .now
  conflict : ∀ claim, claim.status.phase = .conflict → P (.updateStatus claim)

namespace Marking

variable {P : Call → Prop} (hP : Marking P)

include hP

theorem calls_get (name : String) : (Repository.get name).run.Calls P :=
  calls_seq (calls_call (hP.get name)) calls_read

theorem calls_list : Repository.list.run.Calls P := calls_seq (calls_call hP.list) calls_read

theorem calls_confirmedTime (phase : Phase) : (Repository.confirmedTime phase).run.Calls P := by
  unfold Repository.confirmedTime
  split
  · exact calls_seq (calls_call hP.now) fun _ => calls_pure
  · exact calls_pure

theorem calls_transition {phase : Phase}
    (h : ∀ claim : Claim, claim.status.phase = phase → P (.updateStatus claim)) :
    (Repository.transition name version phase revision).run.Calls P := by
  refine calls_seq (hP.calls_get name) fun c => ?_
  split
  · exact calls_throw
  · exact calls_seq (hP.calls_confirmedTime phase) fun _ => calls_seq (calls_call (h _ rfl)) calls_written

theorem calls_markConflict :
    (Repository.markConflict name version revision).run.Calls P := hP.calls_transition hP.conflict

theorem calls_markClaimsConflict (claims : List Claim) : (Repository.markClaimsConflict claims).run.Calls P := by
  induction claims with
  | nil => exact calls_pure
  | cons c rest ih => exact calls_seq (calls_attempt hP.calls_markConflict) fun _ => ih

theorem calls_revalidateUnique : (Repository.revalidateUnique name version).run.Calls P := by
  refine calls_seq (hP.calls_get name) fun c => ?_
  split
  · exact calls_throw
  refine calls_seq hP.calls_list fun claims => ?_
  split
  · split
    · exact calls_pure
    · exact calls_seq (hP.calls_markClaimsConflict _) fun _ => calls_throw
  · exact calls_seq (hP.calls_markClaimsConflict _) fun _ => calls_throw

end Marking

/-- Calls to the claim store and the clock are permitted, confirmations apart. -/
structure Storing (P : Call → Prop) : Prop where
  get : ∀ name, P (.get name)
  list : P .list
  now : P .now
  create : ∀ claim, P (.create claim)
  update : ∀ claim, P (.update claim)
  updateStatus : ∀ claim, claim.status.phase ≠ .confirmed → P (.updateStatus claim)

theorem calls_validSnapshot {P : Call → Prop} (h : P .snapshot) : Repository.validSnapshot.run.Calls P := by
  refine calls_seq (calls_call h) fun r => calls_seq (calls_checked r) fun snapshot => ?_
  split
  · exact calls_pure
  · exact calls_throw

namespace Storing

variable {P : Call → Prop} (hP : Storing P)

include hP

theorem writes {phase : Phase} (h : phase ≠ .confirmed) (claim : Claim) (hc : claim.status.phase = phase) :
    P (.updateStatus claim) := hP.updateStatus claim (by rw [hc]; exact h)

theorem marking : Marking P := ⟨hP.get, hP.list, hP.now, hP.writes (by simp)⟩

theorem calls_reserveExisting {identity : Identity} {print : String} :
    (Repository.reserveExisting c identity print request).run.Calls P := by
  unfold Repository.reserveExisting
  split
  · exact calls_seq (calls_attempt hP.marking.calls_markConflict) fun _ => calls_throw
  have hfin : (Repository.ensureFinalizer c).run.Calls P := by
    unfold Repository.ensureFinalizer
    split
    · exact calls_pure
    · exact calls_seq (calls_call (hP.update _)) calls_written
  refine calls_seq hfin fun n => ?_
  split
  · exact calls_pure
  · exact calls_pure
  · exact hP.marking.calls_transition (hP.writes (by simp))
  · exact calls_throw
  · exact calls_throw

theorem calls_recoverOrphaned (h : P .snapshot) {print : String} :
    (Repository.recoverOrphaned c print request).run.Calls P := by
  refine calls_seq (calls_validSnapshot h) fun snapshot => ?_
  dsimp only
  split
  · exact calls_pure
  split
  · exact calls_pure
  refine calls_seq (calls_call (hP.update _)) fun r => calls_seq (calls_written r) fun _ => ?_
  exact calls_seq (hP.marking.calls_transition (hP.writes (by simp))) fun _ => calls_pure

theorem calls_reserve (h : P .snapshot) : (Repository.reserve request).run.Calls P := by
  refine calls_seq (calls_checked _) fun identity => calls_seq (calls_checked _) fun print => ?_
  split
  · exact calls_throw
  split
  · exact calls_throw
  refine calls_seq hP.marking.calls_list fun claims => ?_
  split
  · refine calls_seq (calls_call (hP.create _)) fun r => calls_seq (calls_written r) fun _ => ?_
    exact hP.marking.calls_transition (hP.writes (by simp))
  · split
    · exact calls_seq (hP.marking.calls_markClaimsConflict _) fun _ => calls_throw
    split
    · refine calls_seq (hP.calls_recoverOrphaned h) fun result => ?_
      cases result with
      | some n => exact calls_pure
      | none => exact hP.calls_reserveExisting
    · exact hP.calls_reserveExisting
  · exact calls_seq (hP.marking.calls_markClaimsConflict _) fun _ => calls_throw

end Storing

/-- The calls that check claims and rows are permitted. -/
structure Checking (P : Call → Prop) : Prop extends Marking P where
  snapshot : P .snapshot
  canceled : P .canceled
  revoked : P .revoked

/-- Everything that manages existing claims is permitted: reservations and provider writes are not. -/
structure Managing (P : Call → Prop) : Prop extends Checking P where
  update : ∀ claim, P (.update claim)
  delete : ∀ name version, P (.delete name version)
  settle : ∀ claim, claim.status.phase = .confirmed ∨ claim.status.phase = .orphaned → P (.updateStatus claim)

namespace Managing

variable {P : Call → Prop} (hP : Managing P)

include hP

theorem calls_confirmed : (Repository.transition name version .confirmed revision).run.Calls P :=
  hP.calls_transition fun claim h => hP.settle claim (.inl h)

theorem calls_markOrphaned : (Repository.markOrphaned name version revision).run.Calls P :=
  hP.calls_transition fun claim h => hP.settle claim (.inr h)

theorem calls_confirm {providerID : String} :
    (Repository.confirm name version providerID revision).run.Calls P := by
  unfold Repository.confirm
  split
  · exact calls_throw
  refine calls_seq hP.calls_revalidateUnique fun c => ?_
  split
  · exact calls_throw
  split
  · exact calls_seq (calls_attempt hP.calls_markConflict) fun _ => calls_throw
  split
  · refine calls_seq (calls_call (hP.update _)) fun r => calls_seq (calls_written r) fun _ => ?_
    exact hP.calls_confirmed
  · exact hP.calls_confirmed

theorem calls_rebindConfirmed {providerID : String} {endpoint : Endpoint} :
    (Repository.rebindConfirmed name version targetName endpoint providerID revision).run.Calls P := by
  refine calls_seq hP.calls_revalidateUnique fun c => ?_
  split
  · exact calls_throw
  refine calls_seq (calls_checked _) fun identity => ?_
  split
  · exact calls_throw
  refine calls_seq (calls_checked _) fun print => ?_
  refine calls_seq (calls_call (hP.update _)) fun r => calls_seq (calls_written r) fun _ => ?_
  exact hP.calls_confirmed

theorem calls_confirmObserved {endpoint : Endpoint} :
    (Manager.confirmObserved c targetName endpoint snapshot).run.Calls P := by
  refine calls_seq (calls_checked _) fun found => ?_
  split
  · exact calls_seq (calls_attempt hP.calls_markConflict) fun _ => calls_throw
  split
  · split
    · exact calls_seq (calls_attempt hP.calls_markOrphaned) fun _ => calls_throw
    · exact calls_pure
  · split
    · exact calls_seq (calls_attempt hP.calls_markConflict) fun _ => calls_throw
    · exact calls_seq hP.calls_confirm fun _ => calls_pure

theorem calls_reconcileClaim : (Manager.reconcileClaim name version targetName snapshot).run.Calls P := by
  have hfail : ∀ (c : Claim) (revision : String), (Manager.failConflict c revision).run.Calls P :=
    fun c revision => calls_seq hP.calls_markConflict fun _ => calls_throw
  unfold Manager.reconcileClaim
  split
  · exact calls_throw
  refine calls_seq hP.calls_revalidateUnique fun c => ?_
  dsimp only
  split
  · exact hfail _ _
  split
  · split
    · exact calls_pure
    · exact hP.calls_markOrphaned
  · split
    · exact hfail _ _
    split
    · exact hfail _ _
    · exact hP.calls_confirm

theorem calls_releaseClaimFinalizer :
    (Manager.releaseClaimFinalizer name version targetName snapshot).run.Calls P := by
  have hrelease : ∀ n v, (Repository.releaseFinalizer n v).run.Calls P :=
    fun n v => calls_seq hP.calls_revalidateUnique fun _ => calls_seq (calls_call (hP.update _)) calls_written
  unfold Manager.releaseClaimFinalizer
  split
  · exact calls_throw
  refine calls_seq hP.calls_revalidateUnique fun c => ?_
  split
  · exact calls_throw
  split
  · exact calls_throw
  · exact hrelease _ _

theorem calls_releaseAndDeleteClaim :
    (Manager.releaseAndDeleteClaim name version targetName snapshot).run.Calls P := by
  refine calls_seq hP.calls_releaseClaimFinalizer fun released => ?_
  unfold Repository.deleteClaim
  split
  · exact calls_throw
  refine calls_seq (calls_call (hP.delete _ _)) fun r => ?_
  split
  · exact calls_pure
  · exact calls_written r

/-- The part of the two-phase create after the reservation. -/
theorem calls_confirmCreated {created : Except OwnershipError Unit} :
    (Manager.confirmCreated name request created).run.Calls P := by
  have hrelist : (Manager.relist created).run.Calls P := by
    refine calls_seq (calls_attempt (calls_validSnapshot hP.snapshot)) fun after => ?_
    split
    · exact calls_pure
    · exact calls_throw
    · exact calls_throw
  refine calls_seq hrelist fun after => calls_seq (hP.calls_get _) fun current => ?_
  refine calls_seq hP.calls_confirmObserved fun result => ?_
  cases result with
  | some n => exact calls_pure
  | none => exact calls_seq (calls_checked _) fun _ => calls_throw

end Managing

/-- The calls of a run. -/
abbrev History := List (Event Call Answer World)

/-- The claim that an event has read. -/
def readClaim : Event Call Answer World → Option Claim
  | ⟨.get _, _, .ok claim, _⟩ => some claim
  | _ => none

/-- The snapshot that an event has taken. -/
def readSnapshot : Event Call Answer World → Option Snapshot
  | ⟨.snapshot, _, .ok snapshot, _⟩ => some snapshot
  | _ => none

/-- The claims read so far, in order. -/
def claimReads (h : History) : List Claim := h.filterMap readClaim

/-- The latest snapshot. -/
def lastSnapshot (h : History) : Option Snapshot := (h.filterMap readSnapshot).getLast?

theorem claimReads_append (h : History) (ev : Event Call Answer World) :
    claimReads (h ++ [ev]) = claimReads h ++ (readClaim ev).toList := by
  cases hev : readClaim ev <;> simp [claimReads, hev]

theorem lastSnapshot_append (h : History) (ev : Event Call Answer World) :
    lastSnapshot (h ++ [ev]) = (readSnapshot ev).or (lastSnapshot h) := by
  cases hev : readSnapshot ev <;> simp [lastSnapshot, hev]

theorem Interference.later {w w' : World} (h : Interference w w') : Later w.store w'.store := by
  cases h with
  | create draft => exact create_later _ _ _
  | update claim => exact update_later _ _
  | updateStatus claim => exact updateStatus_later _ _
  | delete name version => exact delete_later _ _ _
  | rows rows => exact later_refl _

/-- The run of a program on a store and a device that never fail. -/
theorem serve_run {env : World → World → Prop} (p : Prog Call Answer α) (w : World) :
    Run (exec fun _ _ => True) env p w (runWith serve p w).1 (.ret (runWith serve p w).2.1)
      (runWith serve p w).2.2 :=
  runWith_run (fun e w => exec_mono (fun _ _ => trivial) (serve_exec e w)) p w

/-- A list, split at the first element with a property. -/
theorem split_first {p : α → Bool} {l : List α} {a : α} (h : l.find? p = some a) :
    ∃ post, l = l.takeWhile (fun x => !p x) ++ a :: post := by
  obtain ⟨ha, pre, post, hl, hpre⟩ := List.find?_eq_some_iff_append.1 h
  refine ⟨post, ?_⟩
  have hbefore : l.takeWhile (fun x => !p x) = pre := by
    rw [hl, List.takeWhile_append_of_pos hpre, List.takeWhile_cons_of_neg (by simpa using ha), List.append_nil]
  rw [hbefore]
  exact hl

end FortigateDns
