import FortigateDns.Proof.Budget
import FortigateDns.Proof.Idempotence
import FortigateDns.Proof.RouteScope

/-!
# What a resource emits

Every endpoint of a discovery pass comes from an offer of a resource: a hostname that is published,
and a target.

* `process_emits`: **a resource emits nothing but its offers**, whatever the budget and the context.
-/

namespace FortigateDns.Source

open Go List

variable {rt : SourceRuntime} {opts : Options} {ref : SourceRef} {ctx : Context} {b : EndpointBudget}
  {source : String}
variable {target name : String} {targets hosts : List String} {e : Endpoint} {r : Result}
variable {targetsByHost : GoMap GatewayAddressTargets} {limit : Int} {staged : EndpointBudget}

/-- The endpoint that is published for a name and a target. -/
def published (opts : Options) (ref : SourceRef) (ttl : Int) (name target : String) : Endpoint :=
  Endpoint.normalize
    { dnsName := normalizeDNSName name, recordType := recordTypeForTarget (normalizeTarget target)
      targets := [normalizeTarget target], ttl := ttl, zone := opts.zone, ownerID := opts.ownerID, source := ref }

theorem recordTypeForTarget_cases (target : String) :
    recordTypeForTarget target = recordA ∨ recordTypeForTarget target = recordAAAA ∨
      recordTypeForTarget target = recordCNAME := by
  unfold recordTypeForTarget
  split
  · exact .inr (.inr rfl)
  · split
    · exact .inl rfl
    · exact .inr (.inl rfl)

theorem recordTypeForTarget_upper (target : String) :
    toUpper (trimSpace (recordTypeForTarget target)) = recordTypeForTarget target := by
  rcases recordTypeForTarget_cases target with h | h | h <;> rw [h] <;> decide +kernel

theorem published_recordType (ttl : Int) (name target : String) :
    (published opts ref ttl name target).recordType = recordTypeForTarget (normalizeTarget target) := by
  rw [published, normalize_recordType]
  dsimp only
  rw [recordTypeForTarget_upper]

theorem published_targets (ttl : Int) (name target : String) :
    (published opts ref ttl name target).targets = [normalizeTarget (normalizeTarget target)] := by
  rw [published, normalize_targets]
  rfl

theorem published_dnsName (ttl : Int) (name target : String) :
    (published opts ref ttl name target).dnsName = normalizeDNSName (normalizeDNSName name) := by
  rw [published, normalize_dnsName]

theorem recordTypeForTarget_text (ip : IP) :
    recordTypeForTarget ip.toText = if ip.to4.isSome then recordA else recordAAAA := by
  have hip := parseIP_toText ip
  unfold recordTypeForTarget
  rw [trimSpace_of_address hip, hip]

/-- A target that is an address is published as one. -/
theorem published_address {ip : IP} (h : parseIP target = some ip) (ttl : Int) (name : String) :
    (published opts ref ttl name target).targets = [ip.toText] ∧
      (published opts ref ttl name target).recordType = if ip.to4.isSome then recordA else recordAAAA := by
  have htarget : normalizeTarget target = ip.toText := normalizeTarget_some (by rwa [trimSpace_of_address h])
  rw [published_targets, published_recordType, htarget, normalizeTarget_toText]
  exact ⟨rfl, recordTypeForTarget_text ip⟩

/-- Any other target is published as a name. -/
theorem published_name (hsettled : ¬ Unsettled target) (h : parseIP (normalizeDNSName target) = none) (ttl : Int)
    (name : String) :
    (published opts ref ttl name (normalizeDNSName target)).targets = [normalizeDNSName target] ∧
      (published opts ref ttl name (normalizeDNSName target)).recordType = recordCNAME := by
  have htrim := trimSpace_of_settled hsettled
  have hnone : parseIP (trimSpace (normalizeDNSName target)) = none := by rw [htrim, h]
  have htarget : normalizeTarget (normalizeDNSName target) = normalizeDNSName target := by
    rw [normalizeTarget_none hnone]
    exact (normalizeDNSName_idem_iff target).2 hsettled
  rw [published_targets, published_recordType, htarget, htarget]
  refine ⟨rfl, ?_⟩
  unfold recordTypeForTarget
  rw [hnone]

section Build

variable (host : String) (ttl : Int) (opts : Options) (ref : SourceRef)

/-- The key under which a target is seen. -/
def targetKey (target : String) : String :=
  dnsRecordKey opts.zone host (recordTypeForTarget (normalizeTarget target)) ++ "|" ++ normalizeTarget target

theorem mem_buildEach {seen : List String} (h : e ∈ buildEach host ttl opts.zone opts.ownerID ref seen targets) :
    ∃ target ∈ targets, normalizeTarget target ≠ "" ∧ e = published opts ref ttl host target := by
  induction targets generalizing seen with
  | nil => cases h
  | cons target targets ih =>
    have hrest : ∀ {seen}, e ∈ buildEach host ttl opts.zone opts.ownerID ref seen targets →
        ∃ t ∈ target :: targets, normalizeTarget t ≠ "" ∧ e = published opts ref ttl host t := by
      intro seen h
      obtain ⟨t, ht, hne, he⟩ := ih h
      exact ⟨t, mem_cons_of_mem _ ht, hne, he⟩
    unfold buildEach at h
    dsimp only at h
    split at h
    · exact hrest h
    · rename_i hne
      split at h
      · exact hrest h
      · rcases mem_cons.1 h with h | h
        · exact ⟨target, mem_cons_self, hne, h⟩
        · exact hrest h

/-- A target whose key was not seen is built, or one with its key is. -/
theorem buildEach_mem {seen : List String} (hmem : target ∈ targets) (hne : normalizeTarget target ≠ "")
    (hseen : targetKey host opts target ∉ seen) :
    ∃ t, targetKey host opts t = targetKey host opts target ∧
      published opts ref ttl host t ∈ buildEach host ttl opts.zone opts.ownerID ref seen targets := by
  induction targets generalizing seen with
  | nil => cases hmem
  | cons first targets ih =>
    unfold buildEach
    dsimp only
    by_cases hempty : normalizeTarget first = ""
    · rw [if_pos hempty]
      rcases mem_cons.1 hmem with rfl | hmem
      · exact absurd hempty hne
      · exact ih hmem hseen
    rw [if_neg hempty]
    change ∃ t, targetKey host opts t = targetKey host opts target ∧ published opts ref ttl host t ∈
      if targetKey host opts first ∈ seen then buildEach host ttl opts.zone opts.ownerID ref seen targets
      else published opts ref ttl host first ::
        buildEach host ttl opts.zone opts.ownerID ref (targetKey host opts first :: seen) targets
    by_cases hfirst : targetKey host opts first ∈ seen
    · rw [if_pos hfirst]
      rcases mem_cons.1 hmem with rfl | hmem
      · exact absurd hfirst hseen
      · exact ih hmem hseen
    · rw [if_neg hfirst]
      by_cases hkey : targetKey host opts first = targetKey host opts target
      · exact ⟨first, hkey, mem_cons_self⟩
      · rcases mem_cons.1 hmem with rfl | hmem
        · exact absurd rfl hkey
        · obtain ⟨t, ht, hbuilt⟩ := ih hmem
            (by rw [mem_cons, not_or]; exact ⟨Ne.symm hkey, hseen⟩)
          exact ⟨t, ht, mem_cons_of_mem _ hbuilt⟩

/-- The key tells the target. -/
theorem targetKey_inj {target' : String} (h : targetKey host opts target = targetKey host opts target') :
    normalizeTarget target = normalizeTarget target' := by
  unfold targetKey dnsRecordKey at h
  rw [recordTypeForTarget_upper, recordTypeForTarget_upper] at h
  have hlists := congrArg String.toList h
  simp only [String.toList_append, join, append_assoc, append_cancel_left_eq] at hlists
  have htype : recordTypeForTarget (normalizeTarget target) = recordTypeForTarget (normalizeTarget target') := by
    rcases recordTypeForTarget_cases (normalizeTarget target) with h₁ | h₁ | h₁ <;>
      rcases recordTypeForTarget_cases (normalizeTarget target') with h₂ | h₂ | h₂ <;>
      rw [h₁, h₂] at hlists ⊢ <;>
      simp [recordA, recordAAAA, recordCNAME] at hlists
  rw [htype] at hlists
  exact String.toList_injective (append_cancel_left (append_cancel_left hlists))

theorem mem_buildEndpoints :
    e ∈ buildEndpoints host targets ttl opts.zone opts.ownerID ref ↔
      ∃ target ∈ targets, normalizeTarget target ≠ "" ∧ e = published opts ref ttl host target := by
  unfold buildEndpoints
  rw [mem_insertionSort]
  refine ⟨mem_buildEach host ttl opts ref, ?_⟩
  rintro ⟨target, hmem, hne, rfl⟩
  obtain ⟨t, hkey, hbuilt⟩ := buildEach_mem host ttl opts ref hmem hne (not_mem_nil)
  have hsame : published opts ref ttl host t = published opts ref ttl host target := by
    unfold published
    rw [targetKey_inj host opts hkey]
  rwa [hsame] at hbuilt

end Build

theorem publishable_valid {host : String} (h : publishable rt opts host = some name) :
    validHostname name = true ∧ hasPrefix name "*." = false ∧ normalizeDNSName name = name ∧ name ≠ "" ∧
      name ≠ "*" := by
  unfold publishable at h
  dsimp only at h
  split at h
  · cases h
  · rename_i hall
    simp only [not_or, Bool.not_eq_false, Bool.not_eq_true] at hall
    obtain ⟨hne, -, hvalid, hstar, hwild, -⟩ := hall
    obtain rfl := Option.some.inj h
    exact ⟨hvalid, hwild, normalizeDNSName_valid hwild hvalid, hne, hstar⟩

theorem mem_publishedHosts :
    name ∈ publishedHosts rt opts hosts ↔ ∃ host ∈ hosts, publishable rt opts host = some name := by
  unfold publishedHosts
  rw [mem_uniqueSorted]
  constructor
  · rintro ⟨-, found, hfound, rfl⟩
    obtain ⟨host, hhost, hname⟩ := mem_filterMap.1 hfound
    rw [(publishable_valid hname).2.2.1]
    exact ⟨host, hhost, hname⟩
  · rintro ⟨host, hhost, hname⟩
    obtain ⟨-, -, hfixed, hne, -⟩ := publishable_valid hname
    exact ⟨hne, name, mem_filterMap.2 ⟨host, hhost, hname⟩, hfixed⟩

/-- **An offer emits an endpoint**: the one of a hostname that is published and of a target. -/
def Offer.Emits (rt : SourceRuntime) (opts : Options) (ref : SourceRef) (offer : Offer) (e : Endpoint) : Prop :=
  ∃ host ∈ offer.hosts, ∃ name, publishable rt opts host = some name ∧
    ∃ target ∈ offer.targets, normalizeTarget (normalizeDNSName target) ≠ "" ∧
      e = published opts ref offer.ttl name (normalizeDNSName target)

theorem mem_hostEndpoints {host : String} (hname : publishable rt opts host = some name) {ttl : Int} :
    e ∈ hostEndpoints opts ref (uniqueSorted targets) ttl name ↔
      ∃ target ∈ targets, normalizeTarget (normalizeDNSName target) ≠ "" ∧
        e = published opts ref ttl name (normalizeDNSName target) := by
  obtain ⟨hvalid, hwild, hfixed, hne, hstar⟩ := publishable_valid hname
  obtain ⟨-, -, -, hdomain, hzone, -⟩ := publishable_inside hname
  unfold hostEndpoints
  dsimp only
  rw [hfixed]
  by_cases hempty : (uniqueSorted targets).isEmpty = true
  · rw [if_pos (.inr (.inr (.inr (.inr (.inr hempty)))))]
    refine ⟨fun h => (not_mem_nil h).elim, ?_⟩
    rintro ⟨target, htarget, htext, -⟩
    refine absurd (List.isEmpty_iff.1 hempty) (ne_nil_of_mem (mem_uniqueSorted.2 ⟨?_, target, htarget, rfl⟩))
    intro hblank
    exact htext (by rw [hblank]; decide +kernel)
  · rw [if_neg (by simp only [not_or]; exact ⟨hne, by rw [hdomain]; decide,
      hstar, by rw [hwild]; decide, by rw [hzone]; decide, hempty⟩),
      mem_buildEndpoints]
    constructor
    · rintro ⟨target, htarget, htext, he⟩
      obtain ⟨-, raw, hraw, rfl⟩ := mem_uniqueSorted.1 htarget
      exact ⟨raw, hraw, htext, he⟩
    · rintro ⟨target, htarget, htext, he⟩
      refine ⟨normalizeDNSName target, mem_uniqueSorted.2
        ⟨fun hblank => htext ?_, target, htarget, rfl⟩, htext, he⟩
      rw [hblank]
      decide +kernel

/-- **`appendSource` adds what the offer emits.** -/
theorem appendSource_emits (offer : Offer)
    (h : e ∈ (b.appendSource rt ctx r opts source ref offer.hosts offer.targets offer.ttl).result.endpoints) :
    e ∈ r.endpoints ∨ offer.Emits rt opts ref e := by
  obtain ⟨hevents, hhosts⟩ := publishableHosts_eq rt opts ref r offer.hosts
  unfold EndpointBudget.appendSource at h
  dsimp only at h
  rw [hhosts] at h
  split at h
  · rw [markIncomplete_endpoints] at h
    exact .inl h
  split at h
  · rw [(onlyEvents_addEvent _ _ _ _).endpoints, markIncomplete_endpoints, hevents.endpoints] at h
    exact .inl h
  · obtain ⟨-, -, n, hendpoints⟩ := appendHosts_endpoints opts ref source (uniqueSorted offer.targets) offer.ttl
      { b with remaining := b.remaining - (publishedHosts rt opts offer.hosts).length *
        (uniqueSorted offer.targets).length }
      (publishedHosts rt opts offer.hosts) (publishableHosts rt r opts ref offer.hosts).1 (Context.err ctx).2
    rw [hendpoints, hevents.endpoints] at h
    rcases mem_append.1 h with h | h
    · exact .inl h
    · obtain ⟨name, hname, he⟩ := mem_flatMap.1 h
      obtain ⟨host, hhost, hpublished⟩ := mem_publishedHosts.1 (mem_of_mem_take hname)
      exact .inr ⟨host, hhost, name, hpublished, (mem_hostEndpoints hpublished).1 he⟩

section Fitting

variable (ref : SourceRef) (source : String) (r : Result) (hb : b.Solvent) {offer : Offer}
  (hfits : ¬ b.Exceeded (offer.size rt opts))
include hb hfits

/-- Without cancellation, an offer that fits is appended host by host. -/
theorem appendSource_fitting :
    b.appendSource rt none r opts source ref offer.hosts offer.targets offer.ttl =
      appendHosts opts source ref (uniqueSorted offer.targets) offer.ttl
        { b with remaining := b.remaining - offer.size rt opts } (publishedHosts rt opts offer.hosts)
        (publishableHosts rt r opts ref offer.hosts).1 none := by
  have hsmall : ¬ (0 < ((uniqueSorted offer.targets).length : Int) ∧
      (b.perResource.tdiv (uniqueSorted offer.targets).length < (publishedHosts rt opts offer.hosts).length ∨
        b.remaining.tdiv (uniqueSorted offer.targets).length < (publishedHosts rt opts offer.hosts).length)) :=
    fun hlarge => hfits ((tooLarge_iff hb _ _).1 hlarge)
  unfold EndpointBudget.appendSource
  dsimp only [Context.err]
  rw [if_neg Bool.false_ne_true, (publishableHosts_eq rt opts ref r offer.hosts).2, if_neg hsmall]
  unfold Offer.size offerSize
  push_cast
  rfl

/-- It is emitted as a whole. -/
theorem appendSource_emits_all (e : Endpoint) :
    e ∈ (b.appendSource rt none r opts source ref offer.hosts offer.targets offer.ttl).result.endpoints ↔
      e ∈ r.endpoints ∨ offer.Emits rt opts ref e := by
  refine ⟨appendSource_emits offer, fun h => ?_⟩
  rw [appendSource_fitting ref source r hb hfits, (appendHosts_live opts ref source _ _ _ _ _).2.2.2,
    (publishableHosts_eq rt opts ref r offer.hosts).1.endpoints, mem_append]
  refine h.imp_right ?_
  rintro ⟨host, hhost, name, hname, hemits⟩
  exact mem_flatMap.2 ⟨name, mem_publishedHosts.2 ⟨host, hhost, hname⟩, (mem_hostEndpoints hname).2 hemits⟩

/-- What it leaves to the next one. -/
theorem appendSource_fits :
    let d := b.appendSource rt none r opts source ref offer.hosts offer.targets offer.ttl
    d.result.incompleteSources = r.incompleteSources ∧
      d.budget = { b with remaining := b.remaining - offer.size rt opts } := by
  rw [appendSource_fitting ref source r hb hfits]
  exact ⟨(appendHosts_live opts ref source _ _ _ _ _).2.2.1.trans
    (publishableHosts_eq rt opts ref r offer.hosts).1.incompleteSources,
    (appendHosts_endpoints opts ref source _ _ _ _ _ none).1⟩

end Fitting

theorem PublishesOffer.emits {offer : Offer} {d : Discovered}
    (h : PublishesOffer rt ctx opts b source ref offer d) (he : e ∈ d.result.endpoints) :
    offer.Emits rt opts ref e := by
  rcases h with ⟨-, hagree⟩ | ⟨r, hr, ⟨-, hagree⟩ | hagree⟩
  · rw [hagree.result.endpoints] at he
    cases he
  · rw [hagree.result.endpoints, hr.endpoints] at he
    cases he
  · rw [hagree.result.endpoints] at he
    rcases appendSource_emits offer he with he | he
    · rw [hr.endpoints] at he
      cases he
    · exact he

theorem PublishesOffer.emits_all (hb : b.Solvent) {offer : Offer} {d : Discovered}
    (h : PublishesOffer rt none opts b source ref offer d) (hfits : ¬ b.Exceeded (offer.size rt opts))
    (he : offer.Emits rt opts ref e) : e ∈ d.result.endpoints := by
  have hsome : offer.hosts ≠ [] ∧ offer.targets ≠ [] := by
    obtain ⟨host, hhost, -, -, target, htarget, -⟩ := he
    exact ⟨ne_nil_of_mem hhost, ne_nil_of_mem htarget⟩
  rcases h with ⟨hnone, -⟩ | ⟨r, hr, ⟨hnone, -⟩ | hagree⟩
  · exact absurd hnone hsome.1
  · exact absurd hnone hsome.2
  · rw [hagree.result.endpoints]
    exact (appendSource_emits_all ref source r hb hfits e).2 (.inr he)

theorem stageHosts_emits {ctx : Context}
    (h : e ∈ (stageHosts rt opts ref targetsByHost b limit hosts r staged ctx).result.endpoints) :
    e ∈ r.endpoints ∨ ∃ host ∈ hosts, (servedOffer opts targetsByHost host).Emits rt opts ref e := by
  induction hosts generalizing r staged ctx with
  | nil => exact .inl h
  | cons host hosts ih =>
    unfold stageHosts at h
    dsimp only at h
    split at h
    · cases h
    · rcases ih h with h | ⟨other, hother, h⟩
      · rcases appendSource_emits (servedOffer opts targetsByHost host) h with h | h
        · exact .inl h
        · exact .inr ⟨host, mem_cons_self, h⟩
      · exact .inr ⟨other, mem_cons_of_mem _ hother, h⟩

/-- `appendSource` takes no mark back. -/
theorem appendSource_keeps_marks (rt : SourceRuntime) (ctx : Context) (opts : Options) (ref : SourceRef)
    (b : EndpointBudget) (hs : SourceName source) (r : Result) (hosts targets : List String) (ttl : Int) :
    r.incompleteSources ⊆ (b.appendSource rt ctx r opts source ref hosts targets
      ttl).result.incompleteSources := by
  have hloop : ∀ (b : EndpointBudget) (hosts : List String) (r : Result) (ctx : Context), r.incompleteSources ⊆
      (appendHosts opts source ref (uniqueSorted targets) ttl b hosts r ctx).result.incompleteSources := by
    intro b hosts
    induction hosts with
    | nil => exact fun r ctx => Finset.Subset.refl _
    | cons host hosts ih =>
      intro r ctx
      have hhost := (appendEndpointForHost_eq opts ref r host (uniqueSorted targets) ttl).incompleteSources
      unfold appendHosts
      dsimp only
      split
      · rw [markIncomplete_sources hs]
        exact Finset.subset_insert _ _
      · exact (Finset.subset_of_eq hhost.symm).trans (ih _ _)
  obtain ⟨hevents, -⟩ := publishableHosts_eq rt opts ref r hosts
  have hkept := Finset.subset_of_eq hevents.incompleteSources.symm
  unfold EndpointBudget.appendSource
  dsimp only
  split
  · rw [markIncomplete_sources hs]
    exact Finset.subset_insert _ _
  split
  · rw [(onlyEvents_addEvent _ _ _ _).incompleteSources, markIncomplete_sources hs]
    exact hkept.trans (Finset.subset_insert _ _)
  · exact hkept.trans (hloop _ _ _ _)

/-- A route whose parents could not all be verified publishes nothing. -/
theorem stageHosts_incomplete {ctx : Context} (hr : r.endpoints = [])
    (hmark : r.sourceComplete sourceGateway = false) :
    (stageHosts rt opts ref targetsByHost b limit hosts r staged ctx).result.endpoints = [] := by
  cases hosts with
  | nil => exact hr
  | cons host hosts =>
    have hkept := appendSource_keeps_marks rt ctx opts ref staged sourceName_gateway r [host]
      (targetsOf targetsByHost host) opts.defaultTTL
    have hincomplete : (staged.appendSource rt ctx r opts sourceGateway ref [host] (targetsOf targetsByHost host)
        opts.defaultTTL).result.sourceComplete sourceGateway = false := by
      rw [← Bool.not_eq_true, sourceComplete_iff sourceName_gateway, not_not] at hmark ⊢
      exact hkept hmark
    unfold stageHosts
    dsimp only
    rw [hincomplete, Bool.not_false, Bool.or_true, if_pos rfl]

/-- The sizes of the offers of a route. -/
def stagedSize (rt : SourceRuntime) (opts : Options) (targetsByHost : GoMap GatewayAddressTargets)
    (hosts : List String) : Nat :=
  (hosts.map fun host => (servedOffer opts targetsByHost host).size rt opts).sum

theorem routeExpansion_eq (ref : SourceRef) (targetsByHost : GoMap GatewayAddressTargets) (hosts : List String) :
    routeExpansion rt opts ref targetsByHost hosts = stagedSize rt opts targetsByHost hosts := by
  unfold routeExpansion stagedSize
  refine congrArg List.sum (map_congr_left fun host _ => ?_)
  rw [(publishableHosts_eq rt opts ref {} [host]).2]
  rfl

/-- Without cancellation, the offers of a route that fit are emitted as a whole. -/
theorem stageHosts_emits_all (hcomplete : r.sourceComplete sourceGateway = true)
    (hper : (stagedSize rt opts targetsByHost hosts : Int) ≤ staged.perResource)
    (hremaining : (stagedSize rt opts targetsByHost hosts : Int) ≤ staged.remaining)
    (he : e ∈ r.endpoints ∨ ∃ host ∈ hosts, (servedOffer opts targetsByHost host).Emits rt opts ref e) :
    e ∈ (stageHosts rt opts ref targetsByHost b limit hosts r staged none).result.endpoints := by
  induction hosts generalizing r staged with
  | nil =>
    rcases he with he | ⟨host, hhost, -⟩
    · exact he
    · cases hhost
  | cons host hosts ih =>
    have hsum : stagedSize rt opts targetsByHost (host :: hosts) =
        (servedOffer opts targetsByHost host).size rt opts + stagedSize rt opts targetsByHost hosts := sum_cons
    rw [hsum] at hper hremaining
    push_cast at hper hremaining
    -- the budget has room for this host and the rest
    have hsolvent : staged.Solvent := ⟨by omega, by omega⟩
    have hfits : ¬ staged.Exceeded ((servedOffer opts targetsByHost host).size rt opts) := by
      rintro (h | h) <;> omega
    obtain ⟨hmarks, hbudget⟩ := appendSource_fits ref sourceGateway r hsolvent hfits
    have hall := appendSource_emits_all ref sourceGateway r hsolvent hfits e
    obtain ⟨herr, hctx⟩ := appendSource_live (b := staged) rt opts ref sourceGateway r [host]
      (targetsOf targetsByHost host)
      opts.defaultTTL
    unfold stageHosts
    dsimp only [servedOffer] at hmarks hbudget hall hper hremaining ⊢
    generalize staged.appendSource rt none r opts sourceGateway ref [host] (targetsOf targetsByHost host)
      opts.defaultTTL = d at *
    have hstill : d.result.sourceComplete sourceGateway = true := by
      rw [sourceComplete_iff sourceName_gateway] at hcomplete ⊢
      rwa [hmarks]
    rw [if_neg (by rw [herr, hstill]; decide), hctx]
    refine ih hstill ?_ ?_ ?_
    · rw [hbudget]
      dsimp only
      omega
    · rw [hbudget]
      dsimp only
      omega
    · rcases he with he | ⟨other, hother, he⟩
      · exact .inl (hall.2 (.inl he))
      · rcases mem_cons.1 hother with rfl | hother
        · exact .inl (hall.2 (.inr he))
        · exact .inr ⟨other, hother, he⟩

/-- **A resource emits nothing but its offers.** -/
theorem process_emits {resource : Resource} (h : e ∈ (resource.process rt ctx opts b).result.endpoints) :
    resource.inScope opts = true ∧ resource.verified rt opts = true ∧
      ∃ offer ∈ resource.offers rt opts, offer.Emits rt opts resource.sourceRef e := by
  by_cases hscope : resource.inScope opts = true
  swap
  · rw [process_out_of_scope resource (Bool.eq_false_iff.2 hscope)] at h
    cases h
  obtain ⟨d, labels, annotations, hd, heq⟩ := process_handled rt ctx b hscope
  rw [heq, (describe_result d _ labels annotations).1] at h
  refine ⟨hscope, ?_⟩
  cases hd with
  | offered hoffers hverified _ hd =>
    rw [hoffers]
    exact ⟨hverified, _, mem_singleton_self _, hd.emits h⟩
  | skipped _ hskipped =>
    rw [hskipped.endpoints] at h
    cases h
  | @staged r gateways hpublished =>
    have hmarks := targetsForHTTPRoute_marks rt opts r gateways (acceptedParentRefs r)
      (uniqueSorted r.hostnames) {}
    unfold publishRoute at h
    dsimp only at h
    split at h
    · rw [(onlyEvents_addEvent _ _ _ _).endpoints, markIncomplete_endpoints, hmarks.endpoints] at h
      cases h
    · have hverified : (Resource.route r gateways).verified rt opts = true := by
        by_contra hno
        rw [stageHosts_incomplete hmarks.endpoints (Bool.eq_false_iff.2 hno)] at h
        cases h
      refine ⟨hverified, ?_⟩
      rcases stageHosts_emits h with h | ⟨host, hhost, h⟩
      · rw [hmarks.endpoints] at h
        cases h
      · refine ⟨servedOffer opts (r.served rt opts gateways) host, ?_, h⟩
        unfold Resource.offers
        dsimp only
        rw [if_pos hpublished]
        exact mem_map_of_mem hhost

/-- **With a budget that is large enough it emits them all.** -/
theorem process_emits_all (rt : SourceRuntime) (opts : Options) {resource : Resource}
    (hscope : resource.inScope opts = true) (hverified : resource.verified rt opts = true) :
    ∃ b, ∀ offer ∈ resource.offers rt opts, ∀ e, offer.Emits rt opts resource.sourceRef e →
      e ∈ (resource.process rt none opts b).result.endpoints := by
  have hsolvent : (⟨resource.expansion rt opts, resource.expansion rt opts⟩ : EndpointBudget).Solvent :=
    ⟨Int.natCast_nonneg _, Int.natCast_nonneg _⟩
  refine ⟨⟨resource.expansion rt opts, resource.expansion rt opts⟩, fun offer hoffer e he => ?_⟩
  obtain ⟨d, labels, annotations, hd, heq⟩ := process_handled rt none
    ⟨resource.expansion rt opts, resource.expansion rt opts⟩ hscope
  rw [heq, (describe_result d _ labels annotations).1]
  cases hd with
  | offered hoffers _ hexpansion hd =>
    rw [hoffers, mem_singleton] at hoffer
    subst hoffer
    refine hd.emits_all hsolvent ?_ he
    rw [hexpansion]
    rintro (h | h) <;> exact absurd h (lt_irrefl _)
  | skipped hpublished _ =>
    unfold Resource.offers at hoffer
    dsimp only at hoffer
    rw [hpublished, if_neg Bool.false_ne_true] at hoffer
    cases hoffer
  | @staged r gateways hpublished =>
    unfold Resource.offers at hoffer
    dsimp only at hoffer
    rw [if_pos hpublished] at hoffer
    obtain ⟨host, hhost, rfl⟩ := mem_map.1 hoffer
    have hexpansion : (Resource.route r gateways).expansion rt opts =
        stagedSize rt opts (r.served rt opts gateways) (sortStrings (r.served rt opts gateways).keys) := by
      unfold Resource.expansion
      rw [if_neg (by simpa using hscope)]
      dsimp only
      rw [if_pos hpublished, routeExpansion_eq]
    unfold publishRoute
    dsimp only
    rw [if_neg, min_self]
    · refine stageHosts_emits_all hverified ?_ ?_ (.inr ⟨host, hhost, he⟩) <;> exact le_of_eq
        (congrArg Nat.cast hexpansion.symm)
    · rw [routeExpansion_eq, min_self]
      exact not_lt.2 (le_of_eq (congrArg Nat.cast hexpansion.symm))

end FortigateDns.Source
