import FortigateDns.Conc.Interleaving
import FortigateDns.Spec.Manager

/-!
# The world of the ownership protocol

What the calls of the repository and the manager do: the claim store is a versioned object
store whose writes may also fail, with or without having taken effect, and the device is a
list of rows. `SnapshotOK` says which snapshots the provider may give. The two systems at the
end are the controllers over this world: any number of them running any ownership operation,
and controllers that only create.
-/

namespace FortigateDns

open Go Conc

/-- A row of the device. The origin is the identity under which the two-phase create posted
it; other rows have none. -/
structure Row where
  record : Endpoint
  origin : Option Identity := none
  deriving DecidableEq, Repr

/-- The claims and the rows of the device. -/
structure World where
  store : ClaimStore
  rows : List Row

/-- The outcomes of a write: as the store answers, or an error that leaves open whether the
write took effect. -/
def Outcome {α : Type} (w : World) (result : Except StoreError α × ClaimStore) (r : Except StoreError α)
    (w' : World) : Prop :=
  (r = result.1 ∧ w' = { w with store := result.2 }) ∨
    (r = .error .failed ∧ (w' = w ∨ w' = { w with store := result.2 }))

/-- The row that a POST adds. -/
def postedRow (endpoint : Endpoint) (origin : Identity) (id : String) : Row :=
  ⟨{ endpoint with providerID := id }, some origin⟩

/-- **What a call does.** A successful POST has taken effect; a failed one may have. Executing
an operation may do anything to the rows. -/
def exec (SnapshotOK : World → Snapshot → Prop) : (e : Call) → World → Answer e → World → Prop
  | .get name, w, r, w' => w' = w ∧ (r = w.store.get name ∨ r = .error .failed)
  | .list, w, r, w' => w' = w ∧ (r = .ok w.store.objects ∨ r = .error .failed)
  | .create draft, w, r, w' => Outcome w (w.store.create draft {}) r w'
  | .update claim, w, r, w' => Outcome w (w.store.update claim) r w'
  | .updateStatus claim, w, r, w' => Outcome w (w.store.updateStatus claim) r w'
  | .delete name version, w, r, w' => Outcome w (w.store.delete name version) r w'
  | .now, w, _, w' => w' = w
  | .snapshot, w, r, w' => w' = w ∧ ∀ snapshot, r = .ok snapshot → SnapshotOK w snapshot
  | .post endpoint origin, w, r, w' =>
    (∃ id, w' = { w with rows := w.rows ++ [postedRow endpoint origin id] }) ∨ (w' = w ∧ r ≠ .ok ())
  | .apply _, w, _, w' => w'.store = w.store
  | .canceled, w, _, w' => w' = w
  | .revoked, w, _, w' => w' = w

/-- What others do between two calls: any write to the claim store, and anything to the rows. -/
inductive Interference : World → World → Prop
  | create (w : World) (draft : Claim) : Interference w { w with store := (w.store.create draft {}).2 }
  | update (w : World) (claim : Claim) : Interference w { w with store := (w.store.update claim).2 }
  | updateStatus (w : World) (claim : Claim) : Interference w { w with store := (w.store.updateStatus claim).2 }
  | delete (w : World) (name : String) (version : Nat) :
      Interference w { w with store := (w.store.delete name version).2 }
  | rows (w : World) (rows : List Row) : Interference w { w with rows := rows }

/-- A store and a device that never fail: every call takes effect and is answered. -/
def serve : (e : Call) → World → Answer e × World
  | .get name, w => (w.store.get name, w)
  | .list, w => (.ok w.store.objects, w)
  | .create draft, w => ((w.store.create draft {}).1, { w with store := (w.store.create draft {}).2 })
  | .update claim, w => ((w.store.update claim).1, { w with store := (w.store.update claim).2 })
  | .updateStatus claim, w => ((w.store.updateStatus claim).1, { w with store := (w.store.updateStatus claim).2 })
  | .delete name version, w => ((w.store.delete name version).1,
      { w with store := (w.store.delete name version).2 })
  | .now, w => (0, w)
  | .snapshot, w => (.ok ⟨"stable", true, w.rows.map Row.record⟩, w)
  | .post endpoint origin, w =>
    (.ok (), { w with rows := w.rows ++ [postedRow endpoint origin (toString (w.rows.length + 1))] })
  | .apply operation, w =>
    (.ok (), if operation.type = .delete then
      { w with rows := w.rows.filter fun row => row.record.providerID ≠ operation.current.providerID } else w)
  | .canceled, w => (false, w)
  | .revoked, w => (false, w)

/-- A snapshot that shows the rows of the device. -/
def Accurate (w : World) (snapshot : Snapshot) : Prop := snapshot.records = w.rows.map Row.record

theorem serve_exec (e : Call) (w : World) : exec Accurate e w (serve e w).1 (serve e w).2 := by
  cases e with
  | get name => exact ⟨rfl, Or.inl rfl⟩
  | list => exact ⟨rfl, Or.inl rfl⟩
  | create draft => exact Or.inl ⟨rfl, rfl⟩
  | update claim => exact Or.inl ⟨rfl, rfl⟩
  | updateStatus claim => exact Or.inl ⟨rfl, rfl⟩
  | delete name version => exact Or.inl ⟨rfl, rfl⟩
  | now => rfl
  | snapshot => exact ⟨rfl, fun snapshot h => Except.ok.inj h ▸ rfl⟩
  | post endpoint origin => exact Or.inl ⟨_, rfl⟩
  | apply operation =>
    simp only [exec, serve]
    split <;> rfl
  | canceled => rfl
  | revoked => rfl

theorem exec_mono {S S' : World → Snapshot → Prop} {e : Call} {w w' : World} {r : Answer e}
    (h : ∀ snapshot, S w snapshot → S' w snapshot) (hexec : exec S e w r w') : exec S' e w r w' := by
  cases e with
  | snapshot => exact ⟨hexec.1, fun snapshot hr => h snapshot (hexec.2 snapshot hr)⟩
  | _ => exact hexec

/-- Any ownership operation, with any arguments. -/
inductive OwnershipProgram : Prog Call Answer Unit → Prop
  | reconcileCreate (request : Repository.ReserveRequest) :
      OwnershipProgram (Manager.reconcileCreate request).run.discard
  | authorizeMutation (t : OperationType) (precondition : Manager.MutationPrecondition) (snapshot : Snapshot) :
      OwnershipProgram (Manager.authorizeMutation t precondition snapshot).run.discard
  | executeMutation (operation : Operation) (precondition : Manager.MutationPrecondition) :
      OwnershipProgram (Manager.executeMutation operation.type precondition (do
        let result ← Act.call (Call.apply operation)
        checked result)).run.discard
  | managerAdopt (request : Repository.AdoptionRequest) : OwnershipProgram (Manager.adopt request).run.discard
  | reconcileClaim (name : String) (version : Nat) (targetName : String) (snapshot : Snapshot) :
      OwnershipProgram (Manager.reconcileClaim name version targetName snapshot).run.discard
  | releaseClaimFinalizer (name : String) (version : Nat) (targetName : String) (snapshot : Snapshot) :
      OwnershipProgram (Manager.releaseClaimFinalizer name version targetName snapshot).run.discard
  | releaseAndDeleteClaim (name : String) (version : Nat) (targetName : String) (snapshot : Snapshot) :
      OwnershipProgram (Manager.releaseAndDeleteClaim name version targetName snapshot).run.discard
  | reserve (request : Repository.ReserveRequest) : OwnershipProgram (Repository.reserve request).run.discard
  | confirm (name : String) (version : Nat) (providerID providerRevision : String) :
      OwnershipProgram (Repository.confirm name version providerID providerRevision).run.discard
  | adopt (request : Repository.AdoptionRequest) : OwnershipProgram (Repository.adopt request).run.discard
  | rebindConfirmed (name : String) (version : Nat) (targetName : String) (endpoint : Endpoint)
      (providerID providerRevision : String) :
      OwnershipProgram
        (Repository.rebindConfirmed name version targetName endpoint providerID providerRevision).run.discard

/-- Controllers that run any ownership operation, over a device that may change at any time
and whose snapshots may show anything. -/
def ownershipSystem (ι : Type) : System ι Call Answer World where
  exec := exec fun _ _ => True
  programs _ p := OwnershipProgram p
  env w w' := w'.store = w.store

/-- Controllers that create records, each under its own controller ID, of endpoints with the
property `EndpointOK`, over a device with accurate snapshots from which rows may be deleted. -/
def createSystem {ι : Type} (controllerID : ι → String) (EndpointOK : Endpoint → Prop) :
    System ι Call Answer World where
  exec := exec Accurate
  programs i p := ∃ request : Repository.ReserveRequest, request.controllerID = controllerID i ∧
    EndpointOK request.endpoint ∧ p = (Manager.reconcileCreate request).run.discard
  env w w' := w'.store = w.store ∧ w'.rows.Sublist w.rows

end FortigateDns
