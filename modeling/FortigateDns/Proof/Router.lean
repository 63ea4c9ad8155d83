import FortigateDns.Go.Suffixes
import FortigateDns.Proof.Isolation
import FortigateDns.Proof.ValidateAll
import FortigateDns.Spec.Router

/-!
# Routing after validation

* `overlap_of_accepts`: **two targets that accept one name have overlapping scopes**, since the scopes of
  one name are comparable.
* `Delivered`, `endpoint_delivered`, `loop_delivered`: what the loop has delivered, after one endpoint and
  after all of them.
* `routing_unambiguous`: **routing a validated list never fails, and gives every target what it accepts.**
-/

namespace FortigateDns

open Go List

variable {d : Definition} {st : RouteLoop}

/-- The check of a scope, as `Within` on the normalized texts. -/
theorem suffixContains_iff (parent child : String) :
    suffixContains parent child = true ↔ Within (normalizeDNSName parent).toList
      (normalizeDNSName child).toList := by
  rw [← within_iff, suffixContains, Bool.beq_comm]

theorem scope_of_accepts {e : Endpoint} (h : targetAcceptsEndpoint d e = true) :
    ∃ scope ∈ domainScopes d, Within (normalizeDNSName scope).toList (normalizeDNSName e.dnsName).toList := by
  simp only [targetAcceptsEndpoint, Bool.and_eq_true, any_eq_true] at h
  obtain ⟨⟨⟨-, scope, hscope, hcontains⟩, -⟩, -⟩ := h
  exact ⟨scope, hscope, (suffixContains_iff _ _).1 hcontains⟩

/-- **Two write targets that accept endpoints of one name have overlapping scopes.** -/
theorem overlap_of_accepts {d' : Definition} {e e' : Endpoint} (hd : d.dryRun = false) (hd' : d'.dryRun = false)
    (h : targetAcceptsEndpoint d e = true) (h' : targetAcceptsEndpoint d' e' = true)
    (hname : normalizeDNSName e.dnsName = normalizeDNSName e'.dnsName) : writeScopesOverlap d d' = true := by
  obtain ⟨scope, hscope, hwithin⟩ := scope_of_accepts h
  obtain ⟨scope', hscope', hwithin'⟩ := scope_of_accepts h'
  rw [← hname] at hwithin'
  unfold writeScopesOverlap
  rw [hd, hd', Bool.or_self, Bool.not_false, Bool.true_and, any_eq_true]
  refine ⟨scope, hscope, any_eq_true.2 ⟨scope', hscope', ?_⟩⟩
  rw [Bool.or_eq_true, suffixContains_iff, suffixContains_iff]
  exact within_total hwithin hwithin'

/-- No two definitions claim a scope together. -/
def NoConflict (definitions : List Definition) : Prop :=
    definitions.Pairwise fun a b => scopesConflict a b = false

theorem NoConflict.perm {l l' : List Definition} (h : NoConflict l) (hperm : l.Perm l') : NoConflict l' :=
  hperm.pairwise h fun {a b} hab => (scopesConflict_comm b a).trans hab

/-- **Write targets without a conflict that accept one name acknowledge the overlap.** -/
theorem allowed_of_accepts {d' : Definition} {e e' : Endpoint} (hconflict : scopesConflict d d' = false)
    (hd : d.dryRun = false) (hd' : d'.dryRun = false) (h : targetAcceptsEndpoint d e = true)
    (h' : targetAcceptsEndpoint d' e' = true) (hname : normalizeDNSName e.dnsName = normalizeDNSName e'.dnsName) :
    nonDestructiveOverlapAllowed d d' = true := by
  unfold scopesConflict at hconflict
  rw [overlap_of_accepts hd hd' h h' hname, Bool.true_and, Bool.not_eq_false'] at hconflict
  exact hconflict

theorem ambiguous_eq_false_iff (l : List Definition) :
    ambiguous l = false ↔
      l.Pairwise fun a b => (a.dryRun || b.dryRun || nonDestructiveOverlapAllowed a b) = true := by
  induction l with
  | nil => simp [ambiguous]
  | cons d l ih =>
    unfold ambiguous
    rw [Bool.or_eq_false_iff, ih, any_eq_false, pairwise_cons]
    simp only [Bool.not_eq_true, Bool.not_eq_false']

/-- The eligible targets of an endpoint are never ambiguous. -/
theorem not_ambiguous {definitions : List Definition} (h : NoConflict definitions) (e : Endpoint) :
    ambiguous (definitions.filter fun d => targetAcceptsEndpoint d e) = false := by
  rw [ambiguous_eq_false_iff]
  refine (List.Pairwise.filter _ h).imp_of_mem fun {a b} ha hb hconflict => ?_
  have ha := (mem_filter.1 ha).2
  have hb := (mem_filter.1 hb).2
  cases hda : a.dryRun with
  | true => rfl
  | false =>
    cases hdb : b.dryRun with
    | true => rfl
    | false => exact allowed_of_accepts hconflict hda hdb ha hb rfl

/-- A target gets an endpoint for one of the endpoints it accepts. -/
def Receives (endpoints : List Endpoint) (d : Definition) (r : Endpoint) : Prop :=
  ∃ e ∈ endpoints, targetAcceptsEndpoint d e.normalize = true ∧ r = d.routed e.normalize

/-- **What the loop has delivered** for the endpoints it has seen. -/
structure Delivered (definitions : List Definition) (endpoints : List Endpoint) (st : RouteLoop) : Prop where
  seen : ∀ key, (st.byTarget.slice key).map Endpoint.key = st.seen.slice key
  nodup : ∀ key, (st.seen.slice key).Nodup
  accepted : ∀ key, ∀ r ∈ st.byTarget.slice key, ∃ d ∈ definitions, d.key = key ∧ Receives endpoints d r
  delivered : ∀ d ∈ definitions, ∀ r, Receives endpoints d r → r.key ∈ st.seen.slice d.key
  unrouted : st.unrouted = (endpoints.map Endpoint.normalize).filter fun e =>
    (definitions.filter fun d => targetAcceptsEndpoint d e).isEmpty

theorem receives_append {l : List Endpoint} {e : Endpoint} {r : Endpoint} :
    Receives (l ++ [e]) d r ↔ Receives l d r ∨ targetAcceptsEndpoint d e.normalize = true ∧
      r = d.routed e.normalize := by
  unfold Receives
  simp only [mem_append, mem_singleton, or_and_right, exists_or, exists_eq_left]

section Deliver

variable {definitions : List Definition} {endpoints : List Endpoint} {e : Endpoint}

/-- The deliveries of one endpoint, to the first of its eligible targets. -/
structure Delivering (definitions : List Definition) (endpoints : List Endpoint) (e : Endpoint)
    (served : List Definition) (st : RouteLoop) : Prop where
  seen : ∀ key, (st.byTarget.slice key).map Endpoint.key = st.seen.slice key
  nodup : ∀ key, (st.seen.slice key).Nodup
  accepted : ∀ key, ∀ r ∈ st.byTarget.slice key, ∃ d ∈ definitions, d.key = key ∧ Receives (endpoints ++ [e]) d r
  before : ∀ d ∈ definitions, ∀ r, Receives endpoints d r → r.key ∈ st.seen.slice d.key
  now : ∀ d ∈ served, (d.routed e.normalize).key ∈ st.seen.slice d.key

theorem deliver_delivering {served : List Definition} (h : Delivering definitions endpoints e served st)
    (hd : d ∈ definitions) (haccepts : targetAcceptsEndpoint d e.normalize = true) :
    Delivering definitions endpoints e (served ++ [d]) (st.deliver e.normalize d) := by
  unfold RouteLoop.deliver
  dsimp only
  split
  · rename_i hseen
    -- a duplicate: nothing is added
    refine ⟨h.seen, h.nodup, h.accepted, h.before, fun d' hd' => ?_⟩
    rcases mem_append.1 hd' with hd' | hd'
    · exact h.now d' hd'
    · rw [mem_singleton.1 hd']
      exact hseen
  · rename_i hseen
    have hgrow : ∀ key, ∀ k ∈ st.seen.slice key,
      k ∈ (st.seen.appendAt d.key (d.routed e.normalize).key).slice key := by
      intro key k hk
      rw [GoMap.slice_appendAt]
      split
      · exact mem_append_left _ hk
      · exact hk
    refine ⟨fun key => ?_, fun key => ?_, fun key r hr => ?_, fun d' hd' r hr => hgrow _ _ (h.before d' hd' r hr),
      fun d' hd' => ?_⟩
    · rw [GoMap.slice_appendAt, GoMap.slice_appendAt, ← h.seen]
      split
      · rw [map_append]
        rfl
      · rfl
    · rw [GoMap.slice_appendAt]
      split
      · rename_i hkey
        refine nodup_append.2 ⟨h.nodup key, nodup_singleton _, fun a ha b hb hab => hseen ?_⟩
        rw [← mem_singleton.1 hb, ← hab, ← hkey]
        exact ha
      · exact h.nodup key
    · rw [GoMap.slice_appendAt] at hr
      split at hr
      · rename_i hkey
        rcases mem_append.1 hr with hr | hr
        · exact h.accepted key r hr
        · exact ⟨d, hd, hkey.symm, receives_append.2 (.inr ⟨haccepts, mem_singleton.1 hr⟩)⟩
      · exact h.accepted key r hr
    · rcases mem_append.1 hd' with hd' | hd'
      · exact hgrow _ _ (h.now d' hd')
      · rw [mem_singleton.1 hd', GoMap.slice_appendAt, if_pos rfl]
        exact mem_append_right _ mem_cons_self

theorem foldl_delivering {rest served : List Definition} (h : Delivering definitions endpoints e served st)
    (hrest : ∀ d ∈ rest, d ∈ definitions ∧ targetAcceptsEndpoint d e.normalize = true) :
    Delivering definitions endpoints e (served ++ rest) (rest.foldl (RouteLoop.deliver e.normalize) st) ∧
      (rest.foldl (RouteLoop.deliver e.normalize) st).unrouted = st.unrouted := by
  induction rest generalizing served st with
  | nil =>
    rw [append_nil]
    exact ⟨h, rfl⟩
  | cons d rest ih =>
    obtain ⟨hd, haccepts⟩ := hrest d mem_cons_self
    have hunrouted : (st.deliver e.normalize d).unrouted = st.unrouted := by
      unfold RouteLoop.deliver
      dsimp only
      split <;> rfl
    obtain ⟨hdelivering, hkept⟩ := ih (deliver_delivering h hd haccepts)
      fun d' hd' => hrest d' (mem_cons_of_mem _ hd')
    rw [append_assoc] at hdelivering
    exact ⟨hdelivering, hkept.trans hunrouted⟩

/-- **One endpoint**: it never makes the routing ambiguous, and goes to the targets that accept it. -/
theorem endpoint_delivered (hconflict : NoConflict definitions) (h : Delivered definitions endpoints st)
    (e : Endpoint) :
    ∃ st', st.endpoint definitions e = .ok st' ∧ Delivered definitions (endpoints ++ [e]) st' := by
  unfold RouteLoop.endpoint
  dsimp only
  have hunrouted : ((endpoints ++ [e]).map Endpoint.normalize).filter (fun e =>
      (definitions.filter fun d => targetAcceptsEndpoint d e).isEmpty) = st.unrouted ++
      if (definitions.filter fun d => targetAcceptsEndpoint d
        e.normalize).isEmpty then [e.normalize] else [] := by
    rw [map_append, filter_append, ← h.unrouted, map_singleton, filter_singleton, Bool.cond_eq_ite]
  split
  · rename_i hempty
    rw [if_pos hempty] at hunrouted
    have hnone : ∀ d ∈ definitions, targetAcceptsEndpoint d e.normalize ≠ true := by
      rw [List.isEmpty_iff, filter_eq_nil_iff] at hempty
      exact hempty
    refine ⟨_, rfl, h.seen, h.nodup, fun key r hr => ?_, fun d hd r hr => ?_, hunrouted.symm⟩
    · obtain ⟨d, hd, hkey, hreceives⟩ := h.accepted key r hr
      exact ⟨d, hd, hkey, receives_append.2 (.inl hreceives)⟩
    · rcases receives_append.1 hr with hr | hr
      · exact h.delivered d hd r hr
      · exact absurd hr.1 (hnone d hd)
  · rename_i hsome
    rw [if_neg hsome, append_nil] at hunrouted
    rw [not_ambiguous hconflict, if_neg Bool.false_ne_true]
    have hstart : Delivering definitions endpoints e [] st := by
      refine ⟨h.seen, h.nodup, fun key r hr => ?_, h.delivered, fun d hd => (by cases hd)⟩
      obtain ⟨d, hd, hkey, hreceives⟩ := h.accepted key r hr
      exact ⟨d, hd, hkey, receives_append.2 (.inl hreceives)⟩
    have heligible : ∀ d ∈ definitions.filter fun d => targetAcceptsEndpoint d e.normalize,
        d ∈ definitions ∧ targetAcceptsEndpoint d e.normalize = true := by
      intro d hd
      rw [mem_filter] at hd
      exact hd
    obtain ⟨hall, hkept⟩ := foldl_delivering hstart heligible
    refine ⟨_, rfl, hall.seen, hall.nodup, hall.accepted, fun d hd r hr => ?_, hkept.trans hunrouted.symm⟩
    rcases receives_append.1 hr with hr | ⟨haccepts, hrouted⟩
    · exact hall.before d hd r hr
    · rw [hrouted]
      refine hall.now d ?_
      rw [nil_append, mem_filter]
      exact ⟨hd, haccepts⟩

theorem loop_delivered (hconflict : NoConflict definitions) (h : Delivered definitions endpoints st)
    (rest : List Endpoint) :
    ∃ st', rest.foldlM (RouteLoop.endpoint definitions) st = .ok st' ∧ Delivered definitions
      (endpoints ++ rest) st' := by
  induction rest generalizing endpoints st with
  | nil =>
    refine ⟨st, rfl, ?_⟩
    rw [append_nil]
    exact h
  | cons e rest ih =>
    obtain ⟨between, hstep, hbetween⟩ := endpoint_delivered hconflict h e
    obtain ⟨st', hrest, hst'⟩ := ih hbetween
    rw [append_assoc] at hst'
    refine ⟨st', ?_, hst'⟩
    rw [foldlM_cons, hstep]
    exact hrest

end Deliver

theorem sortByKey_perm (l : List Endpoint) : (sortByKey l).Perm l := perm_insertionSort _ _

/-- Sorting keeps what was routed to a target. -/
theorem result_slice (st : RouteLoop) (key : String) :
    (st.result.byTarget.slice key).Perm (st.byTarget.slice key) := by
  have hloop : ∀ (keys : List String) (m : GoMap (List Endpoint)), (∀ k, (m.slice k).Perm (st.byTarget.slice k)) →
      ∀ k, ((keys.foldl (fun m key => m.set key (sortByKey (m.slice key))) m).slice k).Perm
        (st.byTarget.slice k) := by
    intro keys
    induction keys with
    | nil => exact fun m hm => hm
    | cons key keys ih =>
      intro m hm
      refine ih _ fun k => ?_
      have hset : (m.set key (sortByKey (m.slice key))).slice k =
          if k = key then sortByKey (m.slice key) else m.slice k := by
        unfold GoMap.slice
        rw [GoMap.lookup_set]
        split <;> rfl
      rw [hset]
      split
      · rename_i hk
        subst hk
        exact (sortByKey_perm _).trans (hm k)
      · exact hm k
  exact hloop _ _ (fun k => .refl _) key

/-- **What routing guarantees** for definitions that were validated together. -/
structure Routed (definitions : List Definition) (endpoints : List Endpoint) (result : RoutingResult) : Prop where
  /-- Write targets that receive the same name keep their records and acknowledge the overlap. -/
  overlap : ∀ d ∈ definitions, ∀ d' ∈ definitions, d ≠ d' → d.dryRun = false → d'.dryRun = false →
    ∀ r r', Receives endpoints d r → Receives endpoints d' r' → r.dnsName = r'.dnsName →
      d.cleanupPolicy = .known .keep ∧ d'.cleanupPolicy = .known .keep ∧
        d.allowNonDestructiveOverlap = true ∧ d'.allowNonDestructiveOverlap = true
  /-- An endpoint is unrouted if and only if no target accepts it. -/
  unrouted : ∀ r, r ∈ result.unrouted ↔
    ∃ e ∈ endpoints, e.normalize = r ∧ ∀ d ∈ definitions, targetAcceptsEndpoint d r = false
  /-- Every target that accepts an endpoint gets its key, under the zone of the target. -/
  delivered : ∀ d ∈ definitions, ∀ e ∈ endpoints, targetAcceptsEndpoint d e.normalize = true →
    (d.routed e.normalize).key ∈ (result.byTarget.slice d.key).map Endpoint.key
  /-- What is delivered under a key is for a target of that key, which accepts it. -/
  accepted : ∀ key, ∀ r ∈ result.byTarget.slice key, ∃ d ∈ definitions, d.key = key ∧ Receives endpoints d r
  /-- No two endpoints of a target share a key. -/
  distinct : ∀ key, ((result.byTarget.slice key).map Endpoint.key).Nodup

theorem routed_dnsName (d : Definition) (e : Endpoint) : (d.routed e).dnsName = normalizeDNSName e.dnsName := by
  unfold Definition.routed Endpoint.normalize
  dsimp only

theorem receives_dnsName {endpoints : List Endpoint} {r : Endpoint} (h : Receives endpoints d r) :
    ∃ e ∈ endpoints, targetAcceptsEndpoint d e.normalize = true ∧
      r.dnsName = normalizeDNSName e.normalize.dnsName := by
  obtain ⟨e, he, haccepts, hrouted⟩ := h
  refine ⟨e, he, haccepts, ?_⟩
  rw [hrouted, routed_dnsName]

/-- **Routing is never ambiguous after validation**, and every target receives what it accepts. -/
theorem routing_unambiguous (parseURL : String → Option ParsedURL) (definitions checked : List Definition)
    (h : validateAll parseURL definitions = .ok checked) (endpoints : List Endpoint) :
    ∃ result, routeEndpoints parseURL definitions endpoints = .ok result ∧ Routed checked endpoints result := by
  obtain ⟨-, hnames, hconflict⟩ := validateAll_ok_iff.1 h
  have hperm : (checked.insertionSort fun a b => a.key ≤ b.key).Perm checked := perm_insertionSort _ _
  have hsorted : NoConflict (checked.insertionSort fun a b => a.key ≤ b.key) :=
    NoConflict.perm hconflict hperm.symm
  have hstart : Delivered (checked.insertionSort fun a b => a.key ≤ b.key) [] {} := by
    refine ⟨fun _ => rfl, fun _ => nodup_nil, fun key r hr => (by cases hr), fun d _ r hr => ?_, rfl⟩
    obtain ⟨e, he, -⟩ := hr
    cases he
  obtain ⟨st, hloop, hst⟩ := loop_delivered hsorted hstart endpoints
  rw [nil_append] at hst
  refine ⟨st.result, ?_, ?_⟩
  · unfold routeEndpoints
    rw [h]
    dsimp only
    rw [hloop]
    rfl
  · have hslice := result_slice st
    refine ⟨fun d hd d' hd' hne hdry hdry' r r' hr hr' hname => ?_, fun r => ?_, fun d hd e he haccepts => ?_,
      fun key r hr => ?_, fun key => ?_⟩
    · obtain ⟨e, -, haccepts, hrname⟩ := receives_dnsName hr
      obtain ⟨e', -, haccepts', hrname'⟩ := receives_dnsName hr'
      have hsymm : Std.Symm fun a b => scopesConflict a b = false :=
        ⟨fun a b hab => (scopesConflict_comm b a).trans hab⟩
      have hpair : scopesConflict d d' = false := hconflict.forall hd hd' hne
      have hallowed := allowed_of_accepts hpair hdry hdry' haccepts haccepts'
        (hrname.symm.trans (hname.trans hrname'))
      simp only [nonDestructiveOverlapAllowed, Bool.and_eq_true, decide_eq_true_eq] at hallowed
      exact ⟨hallowed.1.1.1, hallowed.1.1.2, hallowed.1.2, hallowed.2⟩
    · have hmem : ∀ d, d ∈ checked ↔ d ∈ checked.insertionSort fun a b => a.key ≤ b.key :=
        fun d => hperm.mem_iff.symm
      show r ∈ sortByKey st.unrouted ↔ _
      rw [(sortByKey_perm _).mem_iff, hst.unrouted, mem_filter, mem_map, List.isEmpty_iff, filter_eq_nil_iff]
      simp only [Bool.not_eq_true, hmem]
      constructor
      · rintro ⟨⟨e, he, rfl⟩, hnone⟩
        exact ⟨e, he, rfl, hnone⟩
      · rintro ⟨e, he, rfl, hnone⟩
        exact ⟨⟨e, he, rfl⟩, hnone⟩
    · rw [((hslice d.key).map _).mem_iff, hst.seen]
      exact hst.delivered d (hperm.mem_iff.2 hd) _ ⟨e, he, haccepts, rfl⟩
    · obtain ⟨d, hd, hkey, hreceives⟩ := hst.accepted key r ((hslice key).mem_iff.1 hr)
      exact ⟨d, hperm.mem_iff.1 hd, hkey, hreceives⟩
    · rw [((hslice key).map _).nodup_iff, hst.seen]
      exact hst.nodup key

/-- A parser that finds the parts of an address it is meant to accept. -/
def acceptedURL (_ : String) : Option ParsedURL := some { scheme := "https", host := "fortigate" }

/-- A target of one namespace that shares its zone. -/
def namespaceTarget (name : String) : Definition where
  name := name
  url := "https://fortigate"
  zone := "example.com"
  apiTokenSecretRef := some { name := "token", key := "token" }
  ownershipMode := .known .exclusive
  controllerID := "controller"
  namespaces := [name]
  cleanupPolicy := .known .keep
  approvalMode := .known .disabled
  allowNonDestructiveOverlap := true

/-- The same record, discovered in a namespace. -/
def namespaceEndpoint (ns : String) : Endpoint where
  dnsName := "www.example.com"
  recordType := recordA
  targets := ["192.0.2.1"]
  source := { kind := "Service", sourceNamespace := ns, name := "web" }

theorem namespaceTargets_valid :
    validateAll acceptedURL [namespaceTarget "a", namespaceTarget "b"] =
      .ok [namespaceTarget "a", namespaceTarget "b"] := by
  decide +kernel

/-- **A key reaches a target that does not accept the endpoint**: the target accepts another endpoint
with the same key. -/
theorem routing_key_of_another :
    ∃ definitions checked endpoints result, validateAll acceptedURL definitions = .ok checked ∧
      routeEndpoints acceptedURL definitions endpoints = .ok result ∧
      ∃ d ∈ checked, ∃ e ∈ endpoints, e.normalize ∉ result.unrouted ∧
        targetAcceptsEndpoint d e.normalize = false ∧
        (d.routed e.normalize).key ∈ (result.byTarget.slice d.key).map Endpoint.key := by
  have hrouted : (routeEndpoints acceptedURL [namespaceTarget "a", namespaceTarget "b"]
      [namespaceEndpoint "a", namespaceEndpoint "b"]).toOption.map
        (fun r => (r.unrouted, (r.byTarget.slice "b").map Endpoint.key)) =
      some ([], ["example.com|www.example.com|A|192.0.2.1"]) := by decide +kernel
  rw [Option.map_eq_some_iff] at hrouted
  obtain ⟨result, hresult, hparts⟩ := hrouted
  obtain ⟨hunrouted, hkeys⟩ := Prod.mk.inj hparts
  have hok : routeEndpoints acceptedURL [namespaceTarget "a", namespaceTarget "b"]
      [namespaceEndpoint "a", namespaceEndpoint "b"] = .ok result := by
    cases h : routeEndpoints acceptedURL [namespaceTarget "a", namespaceTarget "b"]
      [namespaceEndpoint "a", namespaceEndpoint "b"] with
    | error err =>
      rw [h] at hresult
      cases hresult
    | ok r =>
      rw [h] at hresult
      rw [Option.some.inj hresult]
  have hkey : (namespaceTarget "b").key = "b" := by decide +kernel
  refine ⟨_, _, _, result, namespaceTargets_valid, hok, namespaceTarget "b", by simp,
    namespaceEndpoint "a", by simp, ?_, ?_, ?_⟩
  · rw [hunrouted]
    exact not_mem_nil
  · decide +kernel
  · rw [hkey, hkeys]
    decide +kernel

theorem routing_unambiguous_namespaces :
    ∃ result, routeEndpoints acceptedURL [namespaceTarget "a", namespaceTarget "b"]
        [namespaceEndpoint "a", namespaceEndpoint "b"] = .ok result ∧
      Routed [namespaceTarget "a", namespaceTarget "b"] [namespaceEndpoint "a", namespaceEndpoint "b"] result :=
  routing_unambiguous acceptedURL _ _ namespaceTargets_valid _

end FortigateDns
