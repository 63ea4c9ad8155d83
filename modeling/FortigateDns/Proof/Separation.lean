import FortigateDns.Proof.Emission

/-!
# CNAME and address records of one resource

A resource that has hostnames as targets publishes no address. A Gateway address of type `Hostname` is
compared with addresses before the dot at its end is dropped, so that it may still become one.

* `oneForm_service`, `oneForm_ingress`: **the targets of a Service or an Ingress are all addresses or all names.**
-/

namespace FortigateDns.Source

open Go List

variable {rt : SourceRuntime} {opts : Options} {ref : SourceRef}
variable {name t : String} {st : HeadlessState}

/-- A target is published as an address. -/
def IsAddress (target : String) : Prop := (parseIP (normalizeDNSName target)).isSome = true

theorem isAddress_of_parse {target : String} (h : (parseIP target).isSome = true) : IsAddress target := by
  obtain ⟨ip, hip⟩ := Option.isSome_iff_exists.1 h
  unfold IsAddress
  rw [parseIP_normalizeDNSName hip]
  rfl

theorem not_isAddress_of_none (h : parseIP (normalizeDNSName t) = none) : ¬ IsAddress t := by
  unfold IsAddress
  rw [h]
  exact Bool.false_ne_true

theorem isAddress_text (ip : IP) : IsAddress ip.toText :=
  isAddress_of_parse (by rw [parseIP_toText]; rfl)

/-- A target is published as a name. -/
structure IsName (target : String) : Prop where
  settled : ¬ Unsettled target
  name : parseIP (normalizeDNSName target) = none

theorem not_isAddress {target : String} (h : IsName target) : ¬ IsAddress target := by
  unfold IsAddress
  rw [h.name]
  exact Bool.false_ne_true

theorem settled_of_fixed (h : normalizeDNSName name = name) : ¬ Unsettled name :=
  (normalizeDNSName_idem_iff name).1 (by rw [h, h])

theorem isName_of_fixed (hfixed : normalizeDNSName name = name) (h : parseIP name = none) : IsName name :=
  ⟨settled_of_fixed hfixed, by rw [hfixed, h]⟩

theorem isName_validTarget {text : String} (h : validTargetHostname rt text = some name) : IsName name := by
  unfold validTargetHostname at h
  dsimp only at h
  split at h
  · cases h
  · rename_i hall
    obtain rfl := Option.some.inj h
    simp only [not_or, Bool.not_eq_true, Bool.not_eq_false, Option.isSome_eq_false_iff,
      Option.isNone_iff_eq_none] at hall
    obtain ⟨-, hstar, hip, hvalid⟩ := hall
    refine isName_of_fixed (normalizeDNSName_valid ?_ hvalid) hip
    rw [← Bool.not_eq_true, hasPrefix, isPrefixOf_iff_prefix] at hstar ⊢
    exact fun hwild => hstar ((by decide : "*".toList <+: "*.".toList).trans hwild)

/-- The IP-typed fields of a resource hold addresses, as far as they are not checked. -/
def Resource.ValidAddresses : Resource → Prop
  | .service s _ => (∀ ip ∈ s.externalIPs, (parseIP ip).isSome = true) ∧
      ∀ item ∈ s.loadBalancer, item.ip ≠ "" → (parseIP item.ip).isSome = true
  | .ingress i => ∀ item ∈ i.loadBalancer, item.ip ≠ "" → (parseIP item.ip).isSome = true
  | .gateway _ => True
  | .route _ _ => True

theorem isName_balancer {items : List LoadBalancerIngress} (h : t ∈ balancerHostnames rt items) : IsName t := by
  obtain ⟨item, -, hitem⟩ := mem_filterMap.1 h
  split at hitem
  · cases hitem
  · exact isName_validTarget hitem

theorem isAddress_balancer {items : List LoadBalancerIngress}
    (hvalid : ∀ item ∈ items, item.ip ≠ "" → (parseIP item.ip).isSome = true) (h : t ∈ balancerIPs items) :
    IsAddress t := by
  obtain ⟨item, hmem, hitem⟩ := mem_filterMap.1 h
  split at hitem
  · rename_i hip
    obtain rfl := Option.some.inj hitem
    exact isAddress_of_parse (hvalid item hmem hip.2)
  · cases hitem

/-- All targets are names, or all are addresses. -/
def OneForm (targets : List String) : Prop := (∀ t ∈ targets, IsName t) ∨ ∀ t ∈ targets, IsAddress t

theorem oneForm_prefer {hostnames ips : List String} (hnames : ∀ t ∈ hostnames, IsName t)
    (hips : ∀ t ∈ ips, IsAddress t) : OneForm (preferHostnames hostnames ips) := by
  unfold preferHostnames
  split
  · exact .inr hips
  · exact .inl hnames

/-- Only addresses of the slices are collected. -/
def OnlyTexts (st : HeadlessState) : Prop := ∀ t ∈ st.targets, ∃ ip : IP, t = ip.toText

theorem onlyTexts_address (addressType : AddressType) (h : OnlyTexts st) (address : String) :
    OnlyTexts (st.address addressType ref address) := by
  unfold HeadlessState.address
  cases hfound : familyAddress addressType address with
  | none =>
    dsimp only
    unfold HeadlessState.reportFamily
    split
    · exact h
    · exact h
  | some text =>
    have htext : ∃ ip : IP, text = ip.toText := by
      unfold familyAddress at hfound
      split at hfound
      · cases hfound
      · rename_i ip _
        split at hfound
        · cases hfound
        · exact ⟨ip, (Option.some.inj hfound).symm⟩
    dsimp only
    split
    · exact h
    · intro t ht
      rcases mem_append.1 ht with ht | ht
      · exact h t ht
      · rw [mem_singleton.1 ht]
        exact htext

theorem onlyTexts_loop {α : Type} {f : HeadlessState → α → HeadlessState}
    (hf : ∀ {st}, OnlyTexts st → ∀ a, OnlyTexts (f st a)) (l : List α) (h : OnlyTexts st) :
    OnlyTexts (l.foldl f st) := by
  induction l generalizing st with
  | nil => exact h
  | cons a l ih => exact ih (hf h a)

theorem onlyTexts_slice (service : Service) (h : OnlyTexts st) (slice : EndpointSlice) :
    OnlyTexts (HeadlessState.slice service ref st slice) := by
  unfold HeadlessState.slice
  split
  · exact h
  split
  · unfold HeadlessState.reportType
    split
    · exact h
    · exact h
  · refine onlyTexts_loop (fun {st} hst endpoint => ?_) _ h
    unfold HeadlessState.endpoint
    split
    · exact onlyTexts_loop (fun {st} hst address => onlyTexts_address slice.addressType hst address) _ hst
    · exact hst

theorem isAddress_headless {service : Service} {slices : List EndpointSlice}
    (h : t ∈ (headlessTargets service slices ref).1) : IsAddress t := by
  have hall : OnlyTexts ((slices.insertionSort fun a b => sliceLE a b).foldl
    (HeadlessState.slice service ref) {}) :=
    onlyTexts_loop (fun {st} hst slice => onlyTexts_slice service hst slice) _ (fun t ht => by cases ht)
  obtain ⟨ip, rfl⟩ := hall t ((sortStrings_perm _).mem_iff.1 h)
  exact isAddress_text ip

theorem isName_external {service : Service} (h : t ∈ service.externalNameTargets opts) : IsName t := by
  unfold Service.externalNameTargets at h
  dsimp only at h
  split at h
  · rename_i hall
    obtain ⟨-, -, hip, -, -, -, hvalid⟩ := hall
    rw [Option.isSome_eq_false_iff, Option.isNone_iff_eq_none] at hip
    rw [mem_singleton.1 h]
    exact isName_of_fixed (normalizeDNSName_plain (plainName_subdomain hvalid)) hip
  · cases h

theorem oneForm_service (service : Service) (slices : List EndpointSlice)
    (hvalid : (Resource.service service slices).ValidAddresses) :
    OneForm (service.offer rt opts slices).targets := by
  have hips : ∀ t ∈ service.externalIPs, IsAddress t := fun t ht => isAddress_of_parse (hvalid.1 t ht)
  show OneForm (service.offeredTargets rt opts slices)
  unfold Service.offeredTargets
  split
  · exact .inl fun t ht => isName_external ht
  split
  · split
    · exact .inr fun t ht => isAddress_headless ht
    · exact .inl fun t ht => by cases ht
  · unfold Service.addresses
    split
    · refine oneForm_prefer (fun t ht => isName_balancer ht) fun t ht => ?_
      rcases mem_append.1 ht with ht | ht
      · exact hips t ht
      · exact isAddress_balancer hvalid.2 ht
    · exact .inr hips

theorem oneForm_ingress (ingress : Ingress) (hvalid : (Resource.ingress ingress).ValidAddresses) :
    OneForm (ingress.offer rt opts).targets :=
  oneForm_prefer (fun _ ht => isName_balancer ht) fun _ ht => isAddress_balancer hvalid ht

theorem isSpace_label {c : Char} (h : (isAlnum c || c == '-') = true) : isSpace c = false := by
  have hrange : 45 ≤ c.toNat ∧ c.toNat ≤ 122 := by
    simp only [isAlnum, Bool.or_eq_true, Bool.and_eq_true, decide_eq_true_eq, beq_iff_eq] at h
    rcases h with (h | ⟨hA, hZ⟩) | rfl
    · have hlower := isLowerAlnum_toNat h
      omega
    · have hA : 65 ≤ c.toNat := hA
      have hZ : c.toNat ≤ 90 := hZ
      omega
    · decide
  rw [← Bool.not_eq_true, isSpace_iff, any_eq_true]
  simp only [spaceRanges, mem_cons, not_mem_nil, or_false, exists_eq_or_imp, exists_eq_left, Bool.and_eq_true,
    decide_eq_true_eq]
  omega

theorem settled_gateway {text : String} (h : validGatewayHostname text = true) : ¬ Unsettled text := by
  unfold validGatewayHostname at h
  dsimp only at h
  split at h
  · cases h
  have hlabels := all_eq_true.1 h
  rw [← last_of_normalized]
  intro c hc
  have hdot : c ≠ '.' := by
    rintro rfl
    -- a dot at the end leaves an empty label
    obtain ⟨front, hfront⟩ := getLast?_eq_some_iff.1 hc
    have hempty : [] ∈ labels (normalizeDNSName text).toList := by
      unfold labels
      rw [hfront, splitOn_append_cons_self]
      simp
    exact absurd (hlabels [] hempty) (by decide)
  refine ⟨hdot, ?_⟩
  have hjoin : ['.'].intercalate (labels (normalizeDNSName text).toList) = (normalizeDNSName text).toList :=
    intercalate_splitOn '.'
  have hmem := mem_of_getLast? hc
  rw [← hjoin] at hmem
  rcases intercalate_mem hmem with rfl | ⟨label, hlabel, hmem⟩
  · exact absurd rfl hdot
  · have hlabel := hlabels label hlabel
    simp only [Bool.and_eq_true, all_eq_true] at hlabel
    exact isSpace_label (hlabel.2 c hmem)

theorem gateway_hostname_valid {gateway : Gateway} (h : t ∈ gateway.targets.hostnames) :
    validGatewayHostname t = true := by
  obtain ⟨address, -, haddress⟩ := mem_filterMap.1 h
  unfold GatewayAddress.asHostname at haddress
  split at haddress
  · rename_i hall
    obtain rfl := Option.some.inj haddress
    exact hall.2.1
  · cases haddress

/-- The targets of a Gateway: names that may become addresses, or addresses. -/
theorem gateway_hostname {gateway : Gateway} (h : t ∈ gateway.targets.hostnames) : ¬ Unsettled t :=
  settled_gateway (gateway_hostname_valid h)

theorem gateway_ip {gateway : Gateway} (h : t ∈ gateway.targets.ips) : IsAddress t := by
  obtain ⟨address, -, haddress⟩ := mem_filterMap.1 h
  unfold GatewayAddress.asIP at haddress
  split at haddress
  · obtain ⟨ip, -, rfl⟩ := Option.map_eq_some_iff.1 haddress
    exact isAddress_text ip
  · cases haddress

/-- A target is published as an address or as a name. -/
def Publishable (t : String) : Prop := IsAddress t ∨ ¬ Unsettled t

theorem published_type {t : String} (h : Publishable t) (ttl : Int) (name : String) :
    let e := published opts ref ttl name (normalizeDNSName t)
    (IsAddress t ∧ (e.recordType = recordA ∨ e.recordType = recordAAAA)) ∨
    (¬ IsAddress t ∧ e.recordType = recordCNAME) := by
  dsimp only
  cases hip : parseIP (normalizeDNSName t) with
  | some ip =>
    have haddress : IsAddress t := by
      unfold IsAddress
      rw [hip]
      rfl
    refine .inl ⟨haddress, ?_⟩
    rw [(published_address hip ttl name).2]
    split
    · exact .inl rfl
    · exact .inr rfl
  | none =>
    have hname := not_isAddress_of_none hip
    exact .inr ⟨hname, (published_name (h.resolve_left hname) hip ttl name).2⟩

theorem target_ne_empty (h : Publishable t) (hne : normalizeDNSName t ≠ "") :
    normalizeTarget (normalizeDNSName t) ≠ "" := by
  cases hip : parseIP (normalizeDNSName t) with
  | some ip =>
    rw [normalizeTarget_some (by rwa [trimSpace_of_address hip])]
    exact ne_empty_of_parseIP (parseIP_toText ip)
  | none =>
    have hsettled : ¬ Unsettled t := h.resolve_left (not_isAddress_of_none hip)
    have hnone : parseIP (trimSpace (normalizeDNSName t)) = none := by rw [trimSpace_of_settled hsettled, hip]
    rw [normalizeTarget_none hnone, (normalizeDNSName_idem_iff t).2 hsettled]
    exact hne

/-- **The records of a name are all CNAMEs or all addresses.** -/
def Unmixed (endpoints : List Endpoint) : Prop :=
  ∀ name, (∀ e ∈ endpoints, e.dnsName = name → e.recordType = recordCNAME) ∨
    ∀ e ∈ endpoints, e.dnsName = name → e.recordType = recordA ∨ e.recordType = recordAAAA

/-- A resource offers a target for a name that is published. -/
def Resource.Offers (rt : SourceRuntime) (opts : Options) (resource : Resource) (name t : String) : Prop :=
  ∃ offer ∈ resource.offers rt opts, (∃ host ∈ offer.hosts, publishable rt opts host = some name) ∧
    t ∈ offer.targets

theorem published_name_eq {host : String} (h : publishable rt opts host = some name) (ttl : Int)
    (target : String) :
    (published opts ref ttl name target).dnsName = name := by
  have hfixed := (publishable_valid h).2.2.1
  rw [published_dnsName, hfixed, hfixed]

/-- What is emitted for a name, and what is not. -/
theorem emits_offers {resource : Resource}
    (hpublishable : ∀ name t, resource.Offers rt opts name t → Publishable t) {offer : Offer}
    (hoffer : offer ∈ resource.offers rt opts) {e : Endpoint} (he : offer.Emits rt opts ref e) :
    ∃ t, resource.Offers rt opts e.dnsName t ∧
      ((IsAddress t ∧ (e.recordType = recordA ∨ e.recordType = recordAAAA)) ∨
        (¬ IsAddress t ∧ e.recordType = recordCNAME)) := by
  obtain ⟨host, hhost, name, hname, t, ht, -, rfl⟩ := he
  rw [published_name_eq hname]
  have hoffers : resource.Offers rt opts name t := ⟨offer, hoffer, ⟨host, hhost, hname⟩, ht⟩
  exact ⟨t, hoffers, published_type (hpublishable name t hoffers) offer.ttl name⟩

theorem offers_emits (ref : SourceRef) {resource : Resource} (h : resource.Offers rt opts name t)
    (hpublishable : Publishable t) (hne : normalizeDNSName t ≠ "") :
    ∃ offer ∈ resource.offers rt opts, ∃ e, offer.Emits rt opts ref e ∧ e.dnsName = name ∧
      ((IsAddress t ∧ (e.recordType = recordA ∨ e.recordType = recordAAAA)) ∨
        (¬ IsAddress t ∧ e.recordType = recordCNAME)) := by
  obtain ⟨offer, hoffer, ⟨host, hhost, hname⟩, ht⟩ := h
  refine ⟨offer, hoffer, published opts ref offer.ttl name (normalizeDNSName t), ?_, published_name_eq hname _ _,
    published_type hpublishable offer.ttl name⟩
  exact ⟨host, hhost, name, hname, t, ht, target_ne_empty hpublishable hne, rfl⟩

theorem type_ne : recordA ≠ recordCNAME ∧ recordAAAA ≠ recordCNAME := by decide

/-- **The records are not mixed** if the targets offered for a name are all addresses or none is. -/
theorem unmixed_of_offers {resource : Resource}
    (htargets : ∀ name t, resource.Offers rt opts name t → Publishable t)
    (h : resource.inScope opts = true → resource.verified rt opts = true →
      ∀ name t t', resource.Offers rt opts name t →
      resource.Offers rt opts name t' → (IsAddress t ↔ IsAddress t')) (ctx : Context) (b : EndpointBudget) :
    Unmixed (resource.process rt ctx opts b).result.endpoints := by
  intro name
  have hemitted : ∀ e ∈ (resource.process rt ctx opts b).result.endpoints, e.dnsName = name →
      resource.inScope opts = true ∧ resource.verified rt opts = true ∧ ∃ t, resource.Offers rt opts name t ∧
        ((IsAddress t ∧ (e.recordType = recordA ∨ e.recordType = recordAAAA)) ∨
          (¬ IsAddress t ∧ e.recordType = recordCNAME)) := by
    rintro e he rfl
    obtain ⟨hscope, hverified, offer, hoffer, hemits⟩ := process_emits he
    exact ⟨hscope, hverified, emits_offers htargets hoffer hemits⟩
  by_cases haddress : ∃ t, resource.Offers rt opts name t ∧ IsAddress t
  · obtain ⟨t, ht, haddress⟩ := haddress
    refine .inr fun e he hname => ?_
    obtain ⟨hscope, hverified, t', ht', htype⟩ := hemitted e he hname
    exact (htype.resolve_right fun hno => hno.1 ((h hscope hverified name t t' ht ht').1 haddress)).2
  · refine .inl fun e he hname => ?_
    obtain ⟨-, -, t', ht', htype⟩ := hemitted e he hname
    exact (htype.resolve_left fun hyes => haddress ⟨t', ht', hyes.1⟩).2

/-- **They are mixed otherwise**, if the budget is large enough. -/
theorem offers_of_unmixed {resource : Resource}
    (htargets : ∀ name t, resource.Offers rt opts name t → Publishable t ∧ normalizeDNSName t ≠ "")
    (h : ∀ b, Unmixed (resource.process rt none opts b).result.endpoints) (hscope : resource.inScope opts = true)
    (hverified : resource.verified rt opts = true) {t' : String} (ht : resource.Offers rt opts name t)
    (ht' : resource.Offers rt opts name t') : IsAddress t ↔ IsAddress t' := by
  obtain ⟨b, hall⟩ := process_emits_all rt opts hscope hverified
  have hone : ∀ {t t'}, resource.Offers rt opts name t → resource.Offers rt opts name t' → IsAddress t →
    IsAddress t' := by
    intro t t' ht ht' haddress
    by_contra hname
    obtain ⟨hp, hne⟩ := htargets name t ht
    obtain ⟨hp', hne'⟩ := htargets name t' ht'
    obtain ⟨offer, hoffer, e, he, hdns, htype⟩ := offers_emits resource.sourceRef ht hp hne
    obtain ⟨offer', hoffer', e', he', hdns', htype'⟩ := offers_emits resource.sourceRef ht' hp' hne'
    have hrecord := (htype.resolve_right fun h => h.1 haddress).2
    have hrecord' := (htype'.resolve_left fun h => hname h.1).2
    rcases h b name with hnames | haddresses
    · have hcname := hnames e (hall offer hoffer e he) hdns
      rcases hrecord with hr | hr
      · exact type_ne.1 (hr.symm.trans hcname)
      · exact type_ne.2 (hr.symm.trans hcname)
    · rcases haddresses e' (hall offer' hoffer' e' he') hdns' with hr | hr
      · exact type_ne.1 (hr.symm.trans hrecord')
      · exact type_ne.2 (hr.symm.trans hrecord')
  exact ⟨hone ht ht', hone ht' ht⟩

/-- The hostnames of a Gateway's addresses are all published as addresses or none is. -/
def Gateway.Uniform (gateway : Gateway) : Prop :=
  ∀ a ∈ gateway.addresses, ∀ a' ∈ gateway.addresses, ∀ t t', a.asHostname = some t → a'.asHostname = some t' →
    (IsAddress t ↔ IsAddress t')

/-- A target of a name that a route serves: the hostnames of the Gateways that serve it, or their
addresses if there are none. -/
def HTTPRoute.TargetAt (rt : SourceRuntime) (opts : Options) (route : HTTPRoute) (gateways : GoMap Gateway)
    (name t : String) :
    Prop :=
  (∃ parent ∈ route.parentRefs, ∃ gateway,
    Serves rt opts route gateways (acceptedParentRefs route) (uniqueSorted route.hostnames) parent gateway name ∧
      t ∈ gateway.targets.hostnames) ∨
  ((∀ parent ∈ route.parentRefs, ∀ gateway,
    Serves rt opts route gateways (acceptedParentRefs route) (uniqueSorted route.hostnames) parent gateway name →
      gateway.targets.hostnames = []) ∧
    ∃ parent ∈ route.parentRefs, ∃ gateway,
      Serves rt opts route gateways (acceptedParentRefs route) (uniqueSorted route.hostnames) parent
        gateway name ∧
        t ∈ gateway.targets.ips)

/-- **What has to hold of a resource.** Nothing of a Service or an Ingress. -/
def Resource.Separated (rt : SourceRuntime) (opts : Options) (resource : Resource) : Prop :=
  match resource with
  | .service _ _ => True
  | .ingress _ => True
  | .gateway g => resource.inScope opts = true →
      (∃ listener ∈ g.listeners, ∃ host, listener.hostname = some host ∧
        (publishable rt opts (normalizeDNSName host)).isSome = true) → g.Uniform
  | .route r gateways => resource.inScope opts = true → r.published rt opts = true →
      (∀ parent ∈ r.parentRefs, ∀ gateway, Attached r gateways (acceptedParentRefs r) parent gateway →
        ∀ listener ∈ attachedListeners gateway parent,
          listenerAllowsHTTPRoute rt listener gateway.objectNamespace r.objectNamespace opts ≠ none) →
      ∀ name served served' t t', publishable rt opts served = some name →
        publishable rt opts served' = some name →
        r.TargetAt rt opts gateways served t → r.TargetAt rt opts gateways served' t' →
          (IsAddress t ↔ IsAddress t')

theorem oneForm_agree {targets : List String} (h : OneForm targets) {t' : String} (ht : t ∈ targets)
    (ht' : t' ∈ targets) : IsAddress t ↔ IsAddress t' := by
  rcases h with h | h
  · exact iff_of_false (not_isAddress (h t ht)) (not_isAddress (h t' ht'))
  · exact iff_of_true (h t ht) (h t' ht')

theorem mem_targetsOf (r : HTTPRoute) (gateways : GoMap Gateway) (served t : String) :
    t ∈ targetsOf (r.served rt opts gateways) served ↔ r.TargetAt rt opts gateways served t := by
  have hhostnames := mem_served_targets rt opts r gateways (acceptedParentRefs r) (uniqueSorted r.hostnames)
    GatewayAddressTargets.hostnames (fun _ _ => rfl) rfl {} served
  have hips := mem_served_targets rt opts r gateways (acceptedParentRefs r) (uniqueSorted r.hostnames)
    GatewayAddressTargets.ips (fun _ _ => rfl) rfl {} served
  unfold targetsOf GatewayAddressTargets.values preferHostnames HTTPRoute.TargetAt HTTPRoute.served
  by_cases hempty : (((targetsForHTTPRoute rt r gateways (acceptedParentRefs r)
    (uniqueSorted r.hostnames) opts {}).1.lookup
      served).getD {}).hostnames = []
  · have hnone : ∀ t, t ∉ (((targetsForHTTPRoute rt r gateways (acceptedParentRefs r)
      (uniqueSorted r.hostnames) opts
        {}).1.lookup served).getD {}).hostnames := by
      intro t
      rw [hempty]
      exact not_mem_nil
    rw [if_pos (List.isEmpty_iff.2 hempty), hips, ← hhostnames, or_iff_right (hnone t)]
    refine (and_iff_right fun parent hparent gateway hserves => eq_nil_iff_forall_not_mem.2 fun t ht => ?_).symm
    exact hnone t ((hhostnames t).2 ⟨parent, hparent, gateway, hserves, ht⟩)
  · rw [if_neg (mt List.isEmpty_iff.1 hempty), hhostnames]
    refine (or_iff_left ?_).symm
    rintro ⟨hno, -⟩
    obtain ⟨t, ht⟩ := exists_mem_of_ne_nil _ hempty
    obtain ⟨parent, hparent, gateway, hserves, ht⟩ := (hhostnames t).1 ht
    rw [hno parent hparent gateway hserves] at ht
    cases ht

theorem isAddress_ne_empty (h : IsAddress t) : normalizeDNSName t ≠ "" := by
  intro hempty
  unfold IsAddress at h
  rw [hempty] at h
  exact absurd h (by decide)

/-- The targets of a Gateway are published. -/
theorem gateway_target {gateway : Gateway} (h : t ∈ gateway.targets.hostnames ∨ t ∈ gateway.targets.ips) :
    Publishable t ∧ normalizeDNSName t ≠ "" := by
  rcases h with h | h
  · refine ⟨.inr (gateway_hostname h), fun hempty => ?_⟩
    have hvalid := gateway_hostname_valid h
    unfold validGatewayHostname at hvalid
    dsimp only at hvalid
    rw [if_pos (.inl hempty)] at hvalid
    cases hvalid
  · exact ⟨.inl (gateway_ip h), isAddress_ne_empty (gateway_ip h)⟩

theorem mem_values {targets : GatewayAddressTargets} :
    t ∈ targets.values ↔ t ∈ targets.hostnames ∨ (targets.hostnames = [] ∧ t ∈ targets.ips) := by
  unfold GatewayAddressTargets.values preferHostnames
  cases targets.hostnames with
  | nil => simp
  | cons h rest => simp

theorem gateway_offers_iff {gateway : Gateway} :
    (Resource.gateway gateway).Offers rt opts name t ↔
      (∃ listener ∈ gateway.listeners, ∃ host, listener.hostname = some host ∧
        publishable rt opts (normalizeDNSName host) = some name) ∧ t ∈ gateway.targets.values := by
  have hhosts : (∃ host ∈ gateway.hostnames, publishable rt opts host = some name) ↔
      ∃ listener ∈ gateway.listeners, ∃ host, listener.hostname = some host ∧
        publishable rt opts (normalizeDNSName host) = some name := by
    unfold Gateway.hostnames
    constructor
    · rintro ⟨host, hhost, hname⟩
      obtain ⟨-, raw, hraw, rfl⟩ := mem_uniqueSorted.1 hhost
      obtain ⟨listener, hlistener, hlistened⟩ := mem_filterMap.1 hraw
      exact ⟨listener, hlistener, raw, hlistened, hname⟩
    · rintro ⟨listener, hlistener, raw, hlistened, hname⟩
      refine ⟨normalizeDNSName raw, mem_uniqueSorted.2 ⟨fun hempty => ?_, raw, ?_, rfl⟩, hname⟩
      · rw [hempty] at hname
        have hnone : normalizeHostname rt "" = "" := by
          unfold normalizeHostname
          have hblank : normalizeDNSName "" = "" := by decide +kernel
          rw [hblank]
          rfl
        unfold publishable at hname
        dsimp only at hname
        rw [hnone, if_pos (.inl rfl)] at hname
        cases hname
      · exact mem_filterMap.2 ⟨listener, hlistener, hlistened⟩
  unfold Resource.Offers Resource.offers
  dsimp only
  constructor
  · rintro ⟨offer, hoffer, hhost, ht⟩
    obtain rfl := mem_singleton.1 hoffer
    exact ⟨hhosts.1 hhost, ht⟩
  · rintro ⟨hhost, ht⟩
    exact ⟨_, mem_singleton_self _, hhosts.2 hhost, ht⟩

theorem targetAt_served {route : HTTPRoute} {gateways : GoMap Gateway} {served : String}
    (h : route.TargetAt rt opts gateways served t) : served ∈ (route.served rt opts gateways).keys := by
  refine (mem_served_keys {} served).2 ?_
  rcases h with ⟨parent, hparent, gateway, hserves, -⟩ | ⟨-, parent, hparent, gateway, hserves, -⟩
  · exact ⟨parent, hparent, gateway, hserves⟩
  · exact ⟨parent, hparent, gateway, hserves⟩

theorem route_offers_iff {route : HTTPRoute} {gateways : GoMap Gateway} :
    (Resource.route route gateways).Offers rt opts name t ↔
      route.published rt opts = true ∧ ∃ served, publishable rt opts served = some name ∧
        route.TargetAt rt opts gateways served t := by
  unfold Resource.Offers Resource.offers
  dsimp only
  constructor
  · rintro ⟨offer, hoffer, ⟨host, hhost, hname⟩, ht⟩
    split at hoffer
    · rename_i hpublished
      obtain ⟨served, -, rfl⟩ := mem_map.1 hoffer
      obtain rfl := mem_singleton.1 hhost
      exact ⟨hpublished, host, hname, (mem_targetsOf route gateways host t).1 ht⟩
    · cases hoffer
  · rintro ⟨hpublished, served, hname, ht⟩
    rw [if_pos hpublished]
    refine ⟨servedOffer opts (route.served rt opts gateways) served, mem_map_of_mem ?_,
      ⟨served, mem_singleton_self _, hname⟩, (mem_targetsOf route gateways served t).2 ht⟩
    exact (sortStrings_perm _).mem_iff.2 (targetAt_served ht)

/-- The targets of a route are those of its Gateways. -/
theorem targetAt_publishable {route : HTTPRoute} {gateways : GoMap Gateway} {served : String}
    (h : route.TargetAt rt opts gateways served t) : Publishable t ∧ normalizeDNSName t ≠ "" := by
  rcases h with ⟨-, -, gateway, -, ht⟩ | ⟨-, -, -, gateway, -, ht⟩
  · exact gateway_target (.inl ht)
  · exact gateway_target (.inr ht)

theorem publishable_of_oneForm {targets : List String} (h : OneForm targets) (ht : t ∈ targets) :
    Publishable t := by
  rcases h with h | h
  · exact .inr (h t ht).settled
  · exact .inl (h t ht)

theorem unmixed_of_oneForm {resource : Resource} {targets : List String} (hform : OneForm targets)
    (hoffers : ∀ name t, resource.Offers rt opts name t → t ∈ targets) (ctx : Context) (b : EndpointBudget) :
    Unmixed (resource.process rt ctx opts b).result.endpoints := by
  refine unmixed_of_offers (fun name t ht => ?_) (fun _ _ name t t' ht ht' => ?_) ctx b
  · exact publishable_of_oneForm hform (hoffers name t ht)
  · exact oneForm_agree hform (hoffers name t ht) (hoffers name t' ht')

/-- **For one resource, no name has both a CNAME and an address** under any budget and context, if and only if
the condition holds of the resource. -/
theorem unmixed_iff (rt : SourceRuntime) (opts : Options) (resource : Resource)
    (hvalid : resource.ValidAddresses) :
    (∀ ctx b, Unmixed (resource.process rt ctx opts b).result.endpoints) ↔ resource.Separated rt opts := by
  cases resource with
  | service s slices =>
    have hform : OneForm (s.offer rt opts slices).targets := oneForm_service s slices hvalid
    have hoffers : ∀ name t, (Resource.service s slices).Offers rt opts name t →
      t ∈ (s.offer rt opts slices).targets := by
      rintro name t ⟨offer, hoffer, -, ht⟩
      rwa [mem_singleton.1 hoffer] at ht
    exact iff_of_true (unmixed_of_oneForm hform hoffers) trivial
  | ingress i =>
    have hform : OneForm (i.offer rt opts).targets := oneForm_ingress i hvalid
    have hoffers : ∀ name t, (Resource.ingress i).Offers rt opts name t → t ∈ (i.offer rt opts).targets := by
      rintro name t ⟨offer, hoffer, -, ht⟩
      rwa [mem_singleton.1 hoffer] at ht
    exact iff_of_true (unmixed_of_oneForm hform hoffers) trivial
  | gateway g =>
    have htargets : ∀ name t, (Resource.gateway g).Offers rt opts name t → Publishable t ∧
      normalizeDNSName t ≠ "" := by
      intro name t ht
      exact gateway_target ((mem_values.1 (gateway_offers_iff.1 ht).2).imp_right And.right)
    constructor
    · rintro h hscope ⟨listener, hlistener, host, hhost, hsome⟩ a ha a' ha' t t' ht ht'
      obtain ⟨name, hname⟩ := Option.isSome_iff_exists.1 hsome
      have hoffer : ∀ {a t}, a ∈ g.addresses → a.asHostname = some t →
        (Resource.gateway g).Offers rt opts name t := by
        intro a t ha ht
        exact gateway_offers_iff.2 ⟨⟨listener, hlistener, host, hhost, hname⟩,
          mem_values.2 (.inl (mem_filterMap.2 ⟨a, ha, ht⟩))⟩
      exact offers_of_unmixed htargets (fun b => h none b) hscope rfl (hoffer ha ht) (hoffer ha' ht')
    · intro h
      refine unmixed_of_offers (fun name t ht => (htargets name t ht).1) fun hscope _ name t t' ht ht' => ?_
      obtain ⟨⟨listener, hlistener, host, hhost, hname⟩, ht⟩ := gateway_offers_iff.1 ht
      have ht' := (gateway_offers_iff.1 ht').2
      have huniform := h hscope ⟨listener, hlistener, host, hhost, by rw [hname]; rfl⟩
      rcases mem_values.1 ht with ht | ⟨hempty, ht⟩
      · rcases mem_values.1 ht' with ht' | ⟨hempty, -⟩
        · obtain ⟨a, ha, ht⟩ := mem_filterMap.1 ht
          obtain ⟨a', ha', ht'⟩ := mem_filterMap.1 ht'
          exact huniform a ha a' ha' t t' ht ht'
        · rw [hempty] at ht
          cases ht
      · rcases mem_values.1 ht' with ht' | ⟨-, ht'⟩
        · rw [hempty] at ht'
          cases ht'
        · exact iff_of_true (gateway_ip ht) (gateway_ip ht')
  | route r gateways =>
    have htargets : ∀ name t, (Resource.route r gateways).Offers rt opts name t → Publishable t ∧
      normalizeDNSName t ≠ "" := by
      intro name t ht
      obtain ⟨-, served, -, ht⟩ := route_offers_iff.1 ht
      exact targetAt_publishable ht
    constructor
    · intro h hscope hpublished hverified name served served' t t' hname hname' ht ht'
      exact offers_of_unmixed htargets (fun b => h none b) hscope (routeTargets_complete_iff.2 hverified)
        (route_offers_iff.2 ⟨hpublished, served, hname, ht⟩)
          (route_offers_iff.2 ⟨hpublished, served', hname', ht'⟩)
    · intro h
      refine unmixed_of_offers (fun name t ht => (htargets name t ht).1)
        fun hscope hverified name t t' ht ht' => ?_
      obtain ⟨hpublished, served, hname, ht⟩ := route_offers_iff.1 ht
      obtain ⟨-, served', hname', ht'⟩ := route_offers_iff.1 ht'
      exact h hscope hpublished (routeTargets_complete_iff.1 hverified) name served served' t t'
        hname hname' ht ht'

/-- A Gateway of one listener with two addresses. -/
def edgeGateway (first second : GatewayAddress) : Gateway where
  objectNamespace := "apps"
  name := "edge"
  listeners := [{ name := "web", hostname := some "app.example.com" }]
  addresses := [first, second]

/-- Everything else at its default. -/
def edgeOptions : Options where
  defaultTTL := 300
  zone := "example.com"

/-- A name and an address are published as the name. -/
theorem unmixed_iff_edge :
    let gateway := edgeGateway ⟨some .hostname, "lb.example.net"⟩ ⟨some .ipAddress, "192.0.2.1"⟩
    ∀ ctx b, Unmixed ((Resource.gateway gateway).process plainRuntime ctx edgeOptions b).result.endpoints := by
  intro gateway
  have hnames : gateway.addresses.filterMap GatewayAddress.asHostname = ["lb.example.net"] := by decide +kernel
  have hmem : ∀ {a t}, a ∈ gateway.addresses → a.asHostname = some t → t = "lb.example.net" := by
    intro a t ha ht
    have hfound := mem_filterMap.2 ⟨a, ha, ht⟩
    rw [hnames] at hfound
    exact mem_singleton.1 hfound
  refine (unmixed_iff plainRuntime edgeOptions (.gateway gateway) trivial).2 fun _ _ a ha a' ha' t t' ht ht' => ?_
  rw [hmem ha ht, hmem ha' ht']

/-- A dot at the end of an address of type `Hostname`: one name gets an A and a CNAME record. -/
theorem mixed_edge :
    let endpoints := ((Resource.gateway (edgeGateway ⟨some .hostname, "1.2.3.4."⟩
      ⟨some .hostname, "lb.example.net"⟩)).process
      plainRuntime none edgeOptions ⟨10, 10⟩).result.endpoints
    endpoints.map (fun e => (e.dnsName, e.recordType, e.targets)) =
        [("app.example.com", "A", ["1.2.3.4"]), ("app.example.com", "CNAME", ["lb.example.net"])] ∧
      ¬ Unmixed endpoints := by
  intro endpoints
  have hlist : endpoints.map (fun e => (e.dnsName, e.recordType, e.targets)) =
      [("app.example.com", "A", ["1.2.3.4"]),
        ("app.example.com", "CNAME", ["lb.example.net"])] := by decide +kernel
  refine ⟨hlist, fun h => ?_⟩
  have hmem : ∀ row ∈ [("app.example.com", "A", ["1.2.3.4"]), ("app.example.com", "CNAME", ["lb.example.net"])],
      ∃ e ∈ endpoints, (e.dnsName, e.recordType, e.targets) = row := by
    intro row hrow
    rw [← hlist] at hrow
    exact mem_map.1 hrow
  obtain ⟨e, he, hrow⟩ := hmem _ mem_cons_self
  obtain ⟨e', he', hrow'⟩ := hmem _ (mem_cons_of_mem _ mem_cons_self)
  simp only [Prod.mk.injEq] at hrow hrow'
  rcases h "app.example.com" with hnames | haddresses
  · have htype := hnames e he hrow.1
    rw [hrow.2.1] at htype
    exact absurd htype (by decide)
  · have htype := haddresses e' he' hrow'.1
    rw [hrow'.2.1] at htype
    exact absurd htype (by decide)

end FortigateDns.Source
