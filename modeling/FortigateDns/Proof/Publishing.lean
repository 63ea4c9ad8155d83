import FortigateDns.Spec.Discovery
import Mathlib.Algebra.Order.BigOperators.Group.List
import Mathlib.Tactic.Linarith

/-!
# Publishing an offer

What `appendSource` does with the hostnames and targets of a resource, said without the events.

* `publishedHosts`, `hostEndpoints`: the names that are published and the endpoints of one of them.
* `appendSource_charged`: **an offer is charged to the budget before it is published**, and one
  that does not fit is rejected as a whole.
-/

namespace FortigateDns.Source

open Go List
open Policy (Labels)

variable {rt : SourceRuntime} {opts : Options} {ref : SourceRef} {r : Result} {ctx : Context}
variable {source : String}

/-- A step that only reports. -/
structure OnlyEvents (r r' : Result) : Prop where
  endpoints : r'.endpoints = r.endpoints
  incompleteSources : r'.incompleteSources = r.incompleteSources
  metadata : r'.metadata = r.metadata

theorem OnlyEvents.refl (r : Result) : OnlyEvents r r := ⟨rfl, rfl, rfl⟩

theorem OnlyEvents.trans {r r' r'' : Result} (h : OnlyEvents r r') (h' : OnlyEvents r' r'') : OnlyEvents r r'' :=
  ⟨h'.endpoints.trans h.endpoints, h'.incompleteSources.trans h.incompleteSources, h'.metadata.trans h.metadata⟩

theorem onlyEvents_add (r : Result) (level : EventLevel) (ref : SourceRef) (hostname message : String) :
    OnlyEvents r (r.add level ref hostname message) := by
  unfold Result.add
  split
  · exact .refl r
  · exact ⟨rfl, rfl, rfl⟩

theorem onlyEvents_addEvent (r : Result) (ref : SourceRef) (hostname message : String) :
    OnlyEvents r (r.addEvent ref hostname message) := onlyEvents_add r .warning ref hostname message

theorem onlyEvents_addInfoEvent (r : Result) (ref : SourceRef) (hostname message : String) :
    OnlyEvents r (r.addInfoEvent ref hostname message) := onlyEvents_add r .info ref hostname message

/-- A loop whose steps only report only reports. -/
theorem onlyEvents_foldl {α : Type} {f : Result → α → Result} (hf : ∀ r a, OnlyEvents r (f r a)) (l : List α)
    (r : Result) : OnlyEvents r (l.foldl f r) := by
  induction l generalizing r with
  | nil => exact .refl r
  | cons a l ih => exact (hf r a).trans (ih (f r a))

/-- The three source kinds are their own normal form. -/
structure SourceName (source : String) : Prop where
  normal : toLower (trimSpace source) = source
  ne : source ≠ ""

theorem sourceName_service : SourceName sourceService := ⟨by decide +kernel, by decide⟩
theorem sourceName_ingress : SourceName sourceIngress := ⟨by decide +kernel, by decide⟩
theorem sourceName_gateway : SourceName sourceGateway := ⟨by decide +kernel, by decide⟩

theorem sourceComplete_iff (hs : SourceName source) (r : Result) :
    r.sourceComplete source = true ↔ source ∉ r.incompleteSources := by
  unfold Result.sourceComplete
  rw [hs.normal]
  simp

theorem markIncomplete_sources (hs : SourceName source) (r : Result) :
    (r.markIncomplete source).incompleteSources = insert source r.incompleteSources := by
  unfold Result.markIncomplete
  rw [hs.normal]
  dsimp only
  rw [if_neg hs.ne]

theorem markIncomplete_endpoints (r : Result) (source : String) :
    (r.markIncomplete source).endpoints = r.endpoints := by
  unfold Result.markIncomplete
  dsimp only
  split <;> rfl

theorem markIncomplete_metadata (r : Result) (source : String) :
    (r.markIncomplete source).metadata = r.metadata := by
  unfold Result.markIncomplete
  dsimp only
  split <;> rfl

theorem sortStrings_perm (l : List String) : (sortStrings l).Perm l := perm_insertionSort _ _

theorem mem_uniqueSorted {l : List String} {s : String} :
    s ∈ uniqueSorted l ↔ s ≠ "" ∧ ∃ t ∈ l, normalizeDNSName t = s := by
  unfold uniqueSorted
  rw [(sortStrings_perm _).mem_iff, mem_dedup, mem_filter, mem_map, and_comm]
  simp

/-- The normalized host, if it is published. -/
def publishable (rt : SourceRuntime) (opts : Options) (host : String) : Option String :=
  let host := normalizeHostname rt host
  if host = "" ∨ opts.domainAllowed host = false ∨ validHostname host = false ∨ host = "*" ∨
    hasPrefix host "*." = true ∨
      opts.hostInZone host = false ∨ host = normalizeDNSName opts.zone then none
  else some host

/-- The names that an offer publishes. -/
def publishedHosts (rt : SourceRuntime) (opts : Options) (hosts : List String) : List String :=
  uniqueSorted (hosts.filterMap (publishable rt opts))

theorem publishableHost_eq (rt : SourceRuntime) (opts : Options) (ref : SourceRef) (r : Result) (host : String) :
    OnlyEvents r (publishableHost rt r opts ref host).1 ∧
      (publishableHost rt r opts ref host).2 = publishable rt opts host := by
  unfold publishableHost publishable
  dsimp only
  -- the refusals of the loop, in its order
  split_ifs <;> simp_all [OnlyEvents.refl, onlyEvents_addEvent]

theorem filterHosts_eq (rt : SourceRuntime) (opts : Options) (ref : SourceRef) (r : Result)
    (hosts : List String) :
    OnlyEvents r (filterHosts rt opts ref r hosts).1 ∧
      (filterHosts rt opts ref r hosts).2 = hosts.filterMap (publishable rt opts) := by
  induction hosts generalizing r with
  | nil => exact ⟨.refl r, rfl⟩
  | cons host hosts ih =>
    obtain ⟨hevents, hhost⟩ := publishableHost_eq rt opts ref r host
    obtain ⟨hrest, hhosts⟩ := ih (publishableHost rt r opts ref host).1
    unfold filterHosts
    dsimp only
    refine ⟨hevents.trans hrest, ?_⟩
    rw [hhosts, hhost]
    cases h : publishable rt opts host with
    | none => rw [filterMap_cons_none h]; rfl
    | some name => rw [filterMap_cons_some h]; rfl

theorem publishableHosts_eq (rt : SourceRuntime) (opts : Options) (ref : SourceRef) (r : Result)
    (hosts : List String) :
    OnlyEvents r (publishableHosts rt r opts ref hosts).1 ∧
      (publishableHosts rt r opts ref hosts).2 = publishedHosts rt opts hosts := by
  obtain ⟨hevents, hhosts⟩ := filterHosts_eq rt opts ref r hosts
  exact ⟨hevents, congrArg uniqueSorted hhosts⟩

theorem length_buildEach_le (hostname : String) (ttl : Int) (zone ownerID : String) (source : SourceRef)
    (seen targets : List String) :
    (buildEach hostname ttl zone ownerID source seen targets).length ≤ targets.length := by
  induction targets generalizing seen with
  | nil => exact Nat.le_refl 0
  | cons target targets ih =>
    unfold buildEach
    dsimp only
    split
    · exact (ih _).trans (Nat.le_succ _)
    · split
      · exact (ih _).trans (Nat.le_succ _)
      · exact Nat.succ_le_succ (ih _)

theorem length_buildEndpoints_le (hostname : String) (targets : List String) (ttl : Int) (zone ownerID : String)
    (source : SourceRef) : (buildEndpoints hostname targets ttl zone ownerID source).length ≤ targets.length := by
  unfold buildEndpoints
  rw [length_insertionSort]
  exact length_buildEach_le hostname ttl zone ownerID source [] targets

/-- The endpoints of one published name. -/
def hostEndpoints (opts : Options) (ref : SourceRef) (targets : List String) (ttl : Int) (host : String) :
    List Endpoint :=
  let host := normalizeDNSName host
  if host = "" ∨ opts.domainAllowed host = false ∨ host = "*" ∨ hasPrefix host "*." = true ∨
      opts.hostInZone host = false ∨ targets.isEmpty = true then []
  else buildEndpoints host targets ttl opts.zone opts.ownerID ref

theorem length_hostEndpoints_le (targets : List String) (ttl : Int) (host : String) :
    (hostEndpoints opts ref targets ttl host).length ≤ targets.length := by
  unfold hostEndpoints
  dsimp only
  split
  · exact Nat.zero_le _
  · exact length_buildEndpoints_le _ _ _ _ _ _

theorem appendEndpointForHost_eq (opts : Options) (ref : SourceRef) (r : Result) (host : String)
    (targets : List String) (ttl : Int) :
    OnlyEvents { r with endpoints := r.endpoints ++ hostEndpoints opts ref targets ttl host }
      (appendEndpointForHost r opts ref host targets ttl) := by
  have hnothing : ∀ r' : Result, OnlyEvents r r' → OnlyEvents { r with endpoints := r.endpoints ++ [] } r' := by
    rintro r' ⟨h₁, h₂, h₃⟩
    exact ⟨by rw [h₁, append_nil], h₂, h₃⟩
  unfold appendEndpointForHost hostEndpoints
  dsimp only
  split_ifs <;> first
    | exact OnlyEvents.refl _
    | exact hnothing _ (OnlyEvents.refl _)
    | exact hnothing _ (onlyEvents_addEvent _ _ _ _)
    | (exfalso; simp_all)

/-- **The loop over the names of an offer** appends the endpoints of a prefix of them. -/
theorem appendHosts_endpoints (opts : Options) (ref : SourceRef) (source : String) (targets : List String)
    (ttl : Int) (b : EndpointBudget) (hosts : List String) (r : Result) (ctx : Context) :
    let d := appendHosts opts source ref targets ttl b hosts r ctx
    d.budget = b ∧ d.result.metadata = r.metadata ∧
      ∃ n, d.result.endpoints = r.endpoints ++ (hosts.take n).flatMap (hostEndpoints opts ref targets ttl) := by
  induction hosts generalizing r ctx with
  | nil => exact ⟨rfl, rfl, 0, by simp [appendHosts]⟩
  | cons host hosts ih =>
    unfold appendHosts
    dsimp only
    split
    · exact ⟨rfl, markIncomplete_metadata r source, 0, by simp [markIncomplete_endpoints]⟩
    · have hevents := appendEndpointForHost_eq opts ref r host targets ttl
      obtain ⟨hbudget, hmetadata, n, hendpoints⟩ :=
        ih (appendEndpointForHost r opts ref host targets ttl) (Context.err ctx).2
      refine ⟨hbudget, hmetadata.trans hevents.metadata, n + 1, ?_⟩
      rw [hendpoints, hevents.endpoints, append_assoc, take_succ_cons, flatMap_cons]

/-- Without cancellation all names are published. -/
theorem appendHosts_live (opts : Options) (ref : SourceRef) (source : String) (targets : List String)
    (ttl : Int) (b : EndpointBudget) (hosts : List String) (r : Result) :
    let d := appendHosts opts source ref targets ttl b hosts r none
    d.err = none ∧ d.ctx = none ∧ d.result.incompleteSources = r.incompleteSources ∧
      d.result.endpoints = r.endpoints ++ hosts.flatMap (hostEndpoints opts ref targets ttl) := by
  induction hosts generalizing r with
  | nil => exact ⟨rfl, rfl, rfl, by simp [appendHosts]⟩
  | cons host hosts ih =>
    have hevents := appendEndpointForHost_eq opts ref r host targets ttl
    obtain ⟨herr, hctx, hmarks, hendpoints⟩ := ih (appendEndpointForHost r opts ref host targets ttl)
    refine ⟨herr, hctx, hmarks.trans hevents.incompleteSources, ?_⟩
    unfold appendHosts
    dsimp only [Context.err]
    rw [if_neg (by simp), hendpoints, hevents.endpoints, append_assoc, flatMap_cons]

/-- The number of endpoints an offer may come to. -/
def offerSize (rt : SourceRuntime) (opts : Options) (hosts targets : List String) : Nat :=
  (publishedHosts rt opts hosts).length * (uniqueSorted targets).length

/-- A budget that is not overdrawn. -/
structure EndpointBudget.Solvent (b : EndpointBudget) : Prop where
  remaining : 0 ≤ b.remaining
  perResource : 0 ≤ b.perResource

/-- An offer of a size does not fit in a budget. -/
def EndpointBudget.Exceeded (b : EndpointBudget) (size : Nat) : Prop := b.perResource < size ∨ b.remaining < size

/-- **What is published for a source is charged to the budget**: no more than was charged, no
more than the budget allows, and nothing at all for an offer that does not fit. -/
structure Charged (b : EndpointBudget) (size : Nat) (source : String) (r : Result) (d : Discovered) : Prop where
  perResource : d.budget.perResource = b.perResource
  spent : ∃ (spent : Nat) (more : List Endpoint), d.result.endpoints = r.endpoints ++ more ∧ more.length ≤ spent ∧
    d.budget.remaining = b.remaining - spent ∧ (spent : Int) ≤ b.perResource ∧ (spent : Int) ≤ b.remaining
  rejected : b.Exceeded size →
    d.result.endpoints = r.endpoints ∧ d.budget = b ∧ d.result.sourceComplete source = false

/-- Nothing is published and nothing is charged. -/
theorem charged_nothing {b : EndpointBudget} (hb : b.Solvent) {size : Nat} {r : Result} {d : Discovered}
    (hbudget : d.budget = b) (hendpoints : d.result.endpoints = r.endpoints)
    (hmark : b.Exceeded size → d.result.sourceComplete source = false) : Charged b size source r d where
  perResource := by rw [hbudget]
  spent := ⟨0, [], by rw [hendpoints, append_nil], Nat.le_refl 0, by rw [hbudget]; simp,
    hb.perResource, hb.remaining⟩
  rejected h := ⟨hendpoints, hbudget, hmark h⟩

theorem not_exceeded_zero {b : EndpointBudget} (hb : b.Solvent) : ¬ b.Exceeded 0 := by
  rintro (h | h)
  · exact absurd hb.perResource (by simpa using h)
  · exact absurd hb.remaining (by simpa using h)

/-- The comparison of quotients is one of products. -/
theorem tdiv_lt_iff {limit : Int} (h : 0 ≤ limit) {hosts targets : Nat} (ht : 0 < targets) :
    limit.tdiv targets < hosts ↔ limit < (hosts * targets : Nat) := by
  rw [Int.tdiv_eq_ediv_of_nonneg h, Int.ediv_lt_iff_lt_mul (by exact_mod_cast ht)]
  push_cast
  exact Iff.rfl

/-- The test of `appendSource` for offers that do not fit. -/
theorem tooLarge_iff {b : EndpointBudget} (hb : b.Solvent) (hosts targets : Nat) :
    (0 < (targets : Int) ∧ (b.perResource.tdiv targets < hosts ∨ b.remaining.tdiv targets < hosts)) ↔
      b.Exceeded (hosts * targets) := by
  rcases Nat.eq_zero_or_pos targets with rfl | hpos
  · constructor
    · rintro ⟨h, -⟩
      exact absurd h (by simp)
    · intro h
      rw [Nat.mul_zero] at h
      exact absurd h (not_exceeded_zero hb)
  · rw [tdiv_lt_iff hb.perResource hpos, tdiv_lt_iff hb.remaining hpos]
    exact ⟨fun h => h.2, fun h => ⟨by exact_mod_cast hpos, h⟩⟩

theorem sum_length_hostEndpoints_le (targets : List String) (ttl : Int) (hosts : List String) (n : Nat) :
    ((hosts.take n).flatMap (hostEndpoints opts ref targets ttl)).length ≤ hosts.length * targets.length := by
  have hsum : ((hosts.take n).flatMap (hostEndpoints opts ref targets ttl)).length ≤
      (hosts.take n).length * targets.length := by
    rw [length_flatMap]
    refine (sum_le_card_nsmul _ targets.length fun m hm => ?_).trans_eq (by rw [length_map]; rfl)
    obtain ⟨host, -, rfl⟩ := mem_map.1 hm
    exact length_hostEndpoints_le targets ttl host
  exact hsum.trans (Nat.mul_le_mul_right _ (length_take_le' _ _))

/-- **`appendSource` charges what it publishes.** -/
theorem appendSource_charged (rt : SourceRuntime) (opts : Options) (ref : SourceRef) {b : EndpointBudget}
    (hb : b.Solvent) (hs : SourceName source) (ctx : Context) (r : Result) (hosts targets : List String)
    (ttl : Int) :
    Charged b (offerSize rt opts hosts targets) source r
      (b.appendSource rt ctx r opts source ref hosts targets ttl) := by
  have hmarked : ∀ r : Result, (r.markIncomplete source).sourceComplete source = false := by
    intro r
    rw [← Bool.not_eq_true, sourceComplete_iff hs, markIncomplete_sources hs]
    simp
  obtain ⟨hevents, hhosts⟩ := publishableHosts_eq rt opts ref r hosts
  unfold EndpointBudget.appendSource
  dsimp only
  rw [hhosts]
  split
  · refine charged_nothing hb ?_ ?_ fun _ => ?_ <;> dsimp only
    · exact markIncomplete_endpoints r source
    · exact hmarked r
  · split
    case isTrue =>
      have hreport := onlyEvents_addEvent ((publishableHosts rt r opts ref hosts).1.markIncomplete source) ref ""
      refine charged_nothing hb ?_ ?_ fun _ => ?_ <;> dsimp only
      · rw [(hreport _).endpoints, markIncomplete_endpoints, hevents.endpoints]
      · have hmark := hmarked (publishableHosts rt r opts ref hosts).1
        rw [← Bool.not_eq_true, sourceComplete_iff hs] at hmark ⊢
        rwa [(hreport _).incompleteSources]
    case isFalse hsmall =>
      have hfits : ¬ b.Exceeded (offerSize rt opts hosts targets) := fun h => hsmall ((tooLarge_iff hb _ _).2 h)
      obtain ⟨hbudget, -, n, hendpoints⟩ := appendHosts_endpoints opts ref source (uniqueSorted targets)
        ttl { b with remaining := b.remaining - (publishedHosts rt opts hosts).length *
          (uniqueSorted targets).length }
        (publishedHosts rt opts hosts) (publishableHosts rt r opts ref hosts).1 (Context.err ctx).2
      rw [hevents.endpoints] at hendpoints
      refine ⟨by rw [hbudget], ⟨offerSize rt opts hosts targets, _, hendpoints, ?_, ?_, ?_, ?_⟩,
        fun h => absurd h hfits⟩
      · exact sum_length_hostEndpoints_le _ _ _ n
      · rw [hbudget]
        unfold offerSize
        push_cast
        rfl
      · exact not_lt.1 fun h => hfits (Or.inl h)
      · exact not_lt.1 fun h => hfits (Or.inr h)

end FortigateDns.Source
