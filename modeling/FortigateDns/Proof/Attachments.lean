import FortigateDns.Proof.Resources

/-!
# What the parents of a route serve

The loops of `targetsForHTTPRoute` in closed form, by the parent references, the listeners and the
hostnames of the route.

* `mem_served_keys`, `mem_served_targets`: **the names that are served, and their targets.**
-/

namespace FortigateDns.Source

open Go List

/-- A loop whose steps add what their elements contribute. -/
theorem foldl_iff {σ α : Type} {f : σ → α → σ} {P : σ → Prop} {Q : α → Prop}
    (hstep : ∀ st a, P (f st a) ↔ P st ∨ Q a) (l : List α) (st : σ) : P (l.foldl f st) ↔ P st ∨ ∃ a ∈ l, Q a := by
  induction l generalizing st with
  | nil => simp
  | cons a l ih =>
    rw [foldl_cons, ih, hstep, or_assoc, exists_mem_cons_iff]

/-- A loop whose steps leave a part of the state alone. -/
theorem foldl_unchanged {σ α β : Type} {f : σ → α → σ} {g : σ → β} (hstep : ∀ st a, g (f st a) = g st)
    (l : List α) (st : σ) : g (l.foldl f st) = g st := by
  induction l generalizing st with
  | nil => rfl
  | cons a l ih => rw [foldl_cons, ih, hstep]

section Route

variable (rt : SourceRuntime) (opts : Options) (route : HTTPRoute) (gateways : GoMap Gateway)
  (accepted hostnames : List String)

/-- The Gateway that an accepted parent reference names. -/
def Attached (parent : ParentReference) (gateway : Gateway) : Prop :=
  parentRefIsGateway parent = true ∧ parentRefKey route.objectNamespace parent ∈ accepted ∧
    gateways.lookup (gatewayMapKey (parent.parentNamespace.getD route.objectNamespace) parent.name) = some gateway

/-- A name is a hostname of the route at a listener that admits it. -/
def MeetsAt (gateway : Gateway) (listener : Listener) (name : String) : Prop :=
  listenerAllowsHTTPRoute rt listener gateway.objectNamespace route.objectNamespace opts = some true ∧
    ∃ host ∈ hostnames, intersectHostname host (normalizeDNSName (listener.hostname.getD "")) = some name

/-- **A Gateway serves a name of the route**, through the parent reference that names it. -/
def Serves (parent : ParentReference) (gateway : Gateway) (name : String) : Prop :=
  Attached route gateways accepted parent gateway ∧
    ∃ listener ∈ attachedListeners gateway parent, MeetsAt rt opts route hostnames gateway listener name

variable {rt opts route gateways accepted hostnames}

theorem intersect_targets (listenerHost : String) (st : RouteState) (host : String) :
    (st.intersect listenerHost host).targetsByHost = st.targetsByHost := by
  unfold RouteState.intersect
  split <;> rfl

theorem intersect_result (listenerHost : String) (st : RouteState) (host : String) :
    (st.intersect listenerHost host).result = st.result := by
  unfold RouteState.intersect
  split <;> rfl

theorem intersect_hosts (listenerHost name : String) (st : RouteState) (host : String) :
    name ∈ (st.intersect listenerHost host).parentHosts ↔
      name ∈ st.parentHosts ∨ intersectHostname host listenerHost = some name := by
  unfold RouteState.intersect
  cases h : intersectHostname host listenerHost with
  | none => simp
  | some merged => simp [mem_insert_iff, or_comm, eq_comm]

theorem listener_targets (gateway : Gateway) (st : RouteState) (listener : Listener) :
    (st.listener rt route gateway hostnames opts listener).targetsByHost = st.targetsByHost := by
  unfold RouteState.listener
  split
  · rfl
  · rfl
  · exact foldl_unchanged (g := RouteState.targetsByHost) (intersect_targets _) hostnames st

theorem listener_hosts (gateway : Gateway) (name : String) (st : RouteState) (listener : Listener) :
    name ∈ (st.listener rt route gateway hostnames opts listener).parentHosts ↔
      name ∈ st.parentHosts ∨ MeetsAt rt opts route hostnames gateway listener name := by
  unfold RouteState.listener MeetsAt
  cases h : listenerAllowsHTTPRoute rt listener gateway.objectNamespace route.objectNamespace opts with
  | none => simp
  | some allowed =>
    cases allowed with
    | false => simp
    | true =>
      dsimp only
      rw [foldl_iff (P := fun st : RouteState => name ∈ st.parentHosts) (intersect_hosts _ name) hostnames st]
      simp

theorem listener_marks (gateway : Gateway) (st : RouteState) (listener : Listener) :
    sourceGateway ∈ (st.listener rt route gateway hostnames opts listener).result.incompleteSources ↔
      sourceGateway ∈ st.result.incompleteSources ∨
        listenerAllowsHTTPRoute rt listener gateway.objectNamespace route.objectNamespace opts = none := by
  unfold RouteState.listener
  cases h : listenerAllowsHTTPRoute rt listener gateway.objectNamespace route.objectNamespace opts with
  | none =>
    dsimp only
    rw [(onlyEvents_addEvent _ _ _ _).incompleteSources, markIncomplete_sources sourceName_gateway]
    simp
  | some allowed =>
    cases allowed with
    | false => simp
    | true =>
      dsimp only
      rw [foldl_unchanged (g := RouteState.result) (intersect_result _) hostnames st]
      simp

/-- The targets of a name, hostnames or addresses as `part` says. -/
def collectedAt (part : GatewayAddressTargets → List String) (st : RouteState) (name : String) : List String :=
  part ((st.targetsByHost.lookup name).getD {})

theorem addTargets_collected {part : GatewayAddressTargets → List String}
    (hpart : ∀ a b : GatewayAddressTargets, part (a.append b) = part a ++ part b)
    (targets : GatewayAddressTargets) (name t : String) (st : RouteState) (host : String) :
    t ∈ collectedAt part (st.addTargets targets host) name ↔
      t ∈ collectedAt part st name ∨ (host = name ∧ t ∈ part targets) := by
  unfold collectedAt RouteState.addTargets
  dsimp only
  rw [GoMap.lookup_set]
  by_cases h : name = host
  · rw [if_pos h, Option.getD_some, hpart, mem_append, h]
    simp
  · rw [if_neg h]
    simp [Ne.symm h]

theorem addTargets_keys (targets : GatewayAddressTargets) (name : String) (st : RouteState) (host : String) :
    ((st.addTargets targets host).targetsByHost.lookup name).isSome = true ↔
      (st.targetsByHost.lookup name).isSome = true ∨ host = name := by
  unfold RouteState.addTargets
  dsimp only
  rw [GoMap.lookup_set]
  by_cases h : name = host
  · rw [if_pos h]
    simp [h]
  · rw [if_neg h]
    simp [Ne.symm h]

/-- The state of a parent before its addresses are added. -/
def parentListened (rt : SourceRuntime) (opts : Options) (route : HTTPRoute) (hostnames : List String)
    (st : RouteState) (parent : ParentReference) (gateway : Gateway) : RouteState :=
  (attachedListeners gateway parent).foldl (RouteState.listener rt route gateway hostnames opts)
    { st with parentHosts := [], result := (collectGatewayTargets rt gateway st.result).2 }

variable (rt opts route gateways accepted hostnames) in
/-- A parent reference is skipped, or the addresses of its Gateway are added to the names met there. -/
theorem parent_cases (st : RouteState) (parent : ParentReference) :
    ((¬ ∃ gateway, Attached route gateways accepted parent gateway) ∧
      st.parent rt route gateways accepted hostnames opts parent = st) ∨
    ∃ gateway, Attached route gateways accepted parent gateway ∧
      (∀ other, Attached route gateways accepted parent other → other = gateway) ∧
      st.parent rt route gateways accepted hostnames opts parent =
        (parentListened rt opts route hostnames st parent gateway).parentHosts.foldl
          (RouteState.addTargets gateway.targets) (parentListened rt opts route hostnames st parent gateway) := by
  unfold RouteState.parent Attached
  by_cases hskip : parentRefIsGateway parent = false ∨ parentRefKey route.objectNamespace parent ∉ accepted
  · rw [if_pos hskip]
    refine .inl ⟨?_, rfl⟩
    rintro ⟨gateway, hgateway, hmem, -⟩
    rcases hskip with h | h
    · rw [hgateway] at h
      cases h
    · exact h hmem
  · rw [if_neg hskip]
    rw [not_or, Bool.not_eq_false, not_not] at hskip
    cases hfound : gateways.lookup (gatewayMapKey
      (parent.parentNamespace.getD route.objectNamespace) parent.name) with
    | none =>
      refine .inl ⟨?_, rfl⟩
      rintro ⟨gateway, -, -, hgateway⟩
      cases hgateway
    | some gateway =>
      refine .inr ⟨gateway, ⟨hskip.1, hskip.2, rfl⟩, fun other hother => (Option.some.inj hother.2.2).symm, ?_⟩
      dsimp only
      rw [(collectGatewayTargets_eq rt gateway st.result).2]
      rfl

theorem parentListened_targets (st : RouteState) (parent : ParentReference) (gateway : Gateway) :
    (parentListened rt opts route hostnames st parent gateway).targetsByHost = st.targetsByHost := by
  unfold parentListened
  rw [foldl_unchanged (g := RouteState.targetsByHost) (listener_targets gateway)]

theorem parentListened_hosts (st : RouteState) (parent : ParentReference) (gateway : Gateway) (name : String) :
    name ∈ (parentListened rt opts route hostnames st parent gateway).parentHosts ↔
      ∃ listener ∈ attachedListeners gateway parent, MeetsAt rt opts route hostnames gateway listener name := by
  unfold parentListened
  rw [foldl_iff (P := fun st : RouteState => name ∈ st.parentHosts) (listener_hosts gateway name)]
  simp

theorem parentListened_marks (st : RouteState) (parent : ParentReference) (gateway : Gateway) :
    sourceGateway ∈ (parentListened rt opts route hostnames st parent gateway).result.incompleteSources ↔
      sourceGateway ∈ st.result.incompleteSources ∨ ∃ listener ∈ attachedListeners gateway parent,
        listenerAllowsHTTPRoute rt listener gateway.objectNamespace route.objectNamespace opts = none := by
  unfold parentListened
  rw [foldl_iff (P := fun st : RouteState => sourceGateway ∈ st.result.incompleteSources)
    (listener_marks gateway)]
  dsimp only
  rw [(collectGatewayTargets_eq rt gateway st.result).1.incompleteSources]

/-- What holds after a parent reference held before, or comes from the Gateway that it names. -/
theorem parent_iff {P : RouteState → Prop} {Q : Gateway → Prop} (st : RouteState) (parent : ParentReference)
    (hgateway : ∀ gateway, P ((parentListened rt opts route hostnames st parent gateway).parentHosts.foldl
      (RouteState.addTargets gateway.targets) (parentListened rt opts route hostnames st parent gateway)) ↔
        P st ∨ Q gateway) :
    P (st.parent rt route gateways accepted hostnames opts parent) ↔
      P st ∨ ∃ gateway, Attached route gateways accepted parent gateway ∧ Q gateway := by
  rcases parent_cases rt opts route gateways accepted hostnames st parent with
    ⟨hnone, heq⟩ | ⟨gateway, hattached, hunique, heq⟩
  · rw [heq]
    refine (or_iff_left ?_).symm
    rintro ⟨gateway, hgateway, -⟩
    exact hnone ⟨gateway, hgateway⟩
  · rw [heq, hgateway]
    refine or_congr_right ⟨fun h => ⟨gateway, hattached, h⟩, ?_⟩
    rintro ⟨other, hother, h⟩
    obtain rfl := hunique other hother
    exact h

theorem parent_collected {part : GatewayAddressTargets → List String}
    (hpart : ∀ a b : GatewayAddressTargets, part (a.append b) = part a ++ part b) (name t : String)
    (st : RouteState) (parent : ParentReference) :
    t ∈ collectedAt part (st.parent rt route gateways accepted hostnames opts parent) name ↔
      t ∈ collectedAt part st name ∨ ∃ gateway,
        Serves rt opts route gateways accepted hostnames parent gateway name ∧
        t ∈ part gateway.targets := by
  simp only [Serves, and_assoc]
  refine parent_iff (P := fun st : RouteState => t ∈ collectedAt part st name) st parent fun gateway => ?_
  have hkept : collectedAt part (parentListened rt opts route hostnames st parent gateway) name =
      collectedAt part st name := by
    unfold collectedAt
    rw [parentListened_targets]
  rw [foldl_iff (P := fun st : RouteState => t ∈ collectedAt part st name)
    (addTargets_collected hpart gateway.targets name t), hkept,
    ← parentListened_hosts st parent gateway name]
  simp only [exists_eq_left, and_left_comm]

theorem parent_keys (name : String) (st : RouteState) (parent : ParentReference) :
    ((st.parent rt route gateways accepted hostnames opts parent).targetsByHost.lookup name).isSome = true ↔
      (st.targetsByHost.lookup name).isSome = true ∨
        ∃ gateway, Serves rt opts route gateways accepted hostnames parent gateway name := by
  refine parent_iff (P := fun st : RouteState => (st.targetsByHost.lookup name).isSome = true) st parent
    fun gateway => ?_
  rw [foldl_iff (P := fun st : RouteState => (st.targetsByHost.lookup name).isSome = true)
    (addTargets_keys gateway.targets name),
    parentListened_targets, ← parentListened_hosts st parent gateway name]
  simp only [exists_eq_right]

theorem parent_marks (st : RouteState) (parent : ParentReference) :
    sourceGateway ∈ (st.parent rt route gateways accepted hostnames opts parent).result.incompleteSources ↔
      sourceGateway ∈ st.result.incompleteSources ∨
        ∃ gateway, Attached route gateways accepted parent gateway ∧
          ∃ listener ∈ attachedListeners gateway parent,
          listenerAllowsHTTPRoute rt listener gateway.objectNamespace route.objectNamespace opts = none := by
  refine parent_iff (P := fun st : RouteState => sourceGateway ∈ st.result.incompleteSources) st parent
    fun gateway => ?_
  rw [foldl_unchanged (f := RouteState.addTargets gateway.targets) (g := RouteState.result) (fun _ _ => rfl),
    parentListened_marks]

/-- **The names that a route serves.** -/
theorem mem_served_keys (r : Result) (name : String) :
    name ∈ (targetsForHTTPRoute rt route gateways accepted hostnames opts r).1.keys ↔
      ∃ parent ∈ route.parentRefs, ∃ gateway,
        Serves rt opts route gateways accepted hostnames parent gateway name := by
  rw [← AList.mem_keys, ← AList.lookup_isSome]
  unfold targetsForHTTPRoute
  dsimp only
  rw [foldl_iff (P := fun st : RouteState => (st.targetsByHost.lookup name).isSome = true) (parent_keys name)]
  refine or_iff_right ?_
  dsimp only
  rw [AList.lookup_empty]
  exact Bool.false_ne_true

variable (rt opts route gateways accepted hostnames) in
/-- **The targets of a name that is served.** -/
theorem mem_served_targets (part : GatewayAddressTargets → List String)
    (hpart : ∀ a b : GatewayAddressTargets, part (a.append b) = part a ++ part b) (hnothing : part {} = [])
    (r : Result) (name t : String) :
    t ∈ part (((targetsForHTTPRoute rt route gateways accepted hostnames opts r).1.lookup name).getD {}) ↔
      ∃ parent ∈ route.parentRefs, ∃ gateway,
        Serves rt opts route gateways accepted hostnames parent gateway name ∧
        t ∈ part gateway.targets := by
  unfold targetsForHTTPRoute
  dsimp only
  refine (foldl_iff (P := fun st : RouteState => t ∈ collectedAt part st name) (parent_collected hpart name t)
    route.parentRefs { result := r }).trans (or_iff_right ?_)
  unfold collectedAt
  rw [AList.lookup_empty, Option.getD_none, hnothing]
  exact not_mem_nil

/-- **The source stays complete** if and only if every listener of the parents could be evaluated. -/
theorem routeTargets_complete_iff :
    (targetsForHTTPRoute rt route gateways accepted hostnames opts {}).2.sourceComplete sourceGateway = true ↔
      ∀ parent ∈ route.parentRefs, ∀ gateway, Attached route gateways accepted parent gateway →
        ∀ listener ∈ attachedListeners gateway parent,
          listenerAllowsHTTPRoute rt listener gateway.objectNamespace route.objectNamespace opts ≠ none := by
  rw [sourceComplete_iff sourceName_gateway]
  unfold targetsForHTTPRoute
  dsimp only
  rw [(onlyEvents_foldl (fun r host => onlyEvents_addEvent r _ host _) _ _).incompleteSources,
    foldl_iff (P := fun st : RouteState => sourceGateway ∈ st.result.incompleteSources) parent_marks]
  simp only [Finset.notMem_empty, false_or, not_exists, not_and, ne_eq]

end Route

end FortigateDns.Source
