import FortigateDns.Proof.Attachments
import FortigateDns.Proof.Hostnames
import FortigateDns.Proof.NormalForm

/-!
# Routes that are skipped publish nothing

A route none of whose hostnames may be published is left out before its status is looked at.

* `Met`, `served_met`: **every name a route serves is the intersection of one of its hostnames with a
  listener's.**
* `skipped_route_publishes_nothing`: **the route would not have published an endpoint.**
-/

namespace FortigateDns.Source

open Go List

variable {host raw : String}

/-- Only characters below 128. -/
def Ascii (s : String) : Prop := ∀ c ∈ s.toList, c.toNat < 128

/-- The IDNA conversion leaves ASCII text alone. -/
def AsciiIdentity (rt : SourceRuntime) : Prop := ∀ s, Ascii s → rt.toASCII s = some s

theorem ascii_normalizeDNSName {s : String} (h : Ascii s) : Ascii (normalizeDNSName s) := by
  intro c hc
  rw [toList_normalizeDNSName] at hc
  obtain ⟨d, hd, rfl⟩ := mem_map.1 ((cutDot_initial _).mem hc)
  have hin : d ∈ s.toList := by
    unfold trimBoth at hd
    rw [mem_reverse] at hd
    have hfront := mem_reverse.1 ((dropWhile_suffix _).mem hd)
    exact (dropWhile_suffix _).mem hfront
  rw [lowerChar_toNat, mapCase_ascii d.toNat (h d hin)]
  split <;> have := h d hin <;> omega

/-- **For ASCII names, `normalizeHostname` is `NormalizeDNSName`.** -/
theorem normalizeHostname_ascii {rt : SourceRuntime} (hrt : AsciiIdentity rt) {s : String} (h : Ascii s) :
    normalizeHostname rt s = normalizeDNSName s := by
  have hlower : ∀ t : String, t.toList <:+ (normalizeDNSName s).toList → toLower t = t := by
    intro t ht
    refine String.toList_injective ?_
    rw [toLower, String.toList_ofList]
    conv_rhs => rw [← map_id t.toList]
    refine map_congr_left fun c hc => ?_
    have hall := (normalized_normalizeDNSName s).lower
    conv_rhs at hall => rw [← map_id (normalizeDNSName s).toList]
    exact map_inj_left.1 hall c (ht.mem hc)
  have hascii := ascii_normalizeDNSName h
  unfold normalizeHostname
  dsimp only
  by_cases hempty : normalizeDNSName s = ""
  · rw [if_pos hempty, hempty]
  · rw [if_neg hempty]
    by_cases hwild : hasPrefix (normalizeDNSName s) "*." = true
    · obtain ⟨t, ht⟩ := (wildcard_iff _).1 hwild
      have hsuffix : t.toList <:+ (normalizeDNSName s).toList := by
        rw [ht, toList_wildcard]
        exact (suffix_cons _ _).trans (suffix_cons _ _)
      rw [if_pos hwild, ht, trimPrefix_wildcard, hrt t fun c hc => hascii c (hsuffix.mem hc)]
      dsimp only
      split
      · rfl
      · rw [hlower t hsuffix]
    · rw [Bool.not_eq_true] at hwild
      rw [hwild, trimPrefix_concrete hwild, hrt _ hascii]
      dsimp only
      rw [if_neg hempty, hlower _ suffix_rfl, if_neg Bool.false_ne_true, String.empty_append]

/-- A name is the intersection of one of the hostnames with an ASCII hostname of a listener. -/
def Met (hostnames : List String) (host : String) : Prop :=
  ∃ raw ∈ hostnames, ∃ listener, Ascii listener ∧ intersectHostname raw (normalizeDNSName listener) = some host

section Served

variable (rt : SourceRuntime) (opts : Options) (route : HTTPRoute) (gateways : GoMap Gateway)
  (hostnames : List String)

/-- The hostnames of the listeners of a route's Gateways are ASCII. -/
def HTTPRoute.AsciiListeners : Prop :=
  ∀ parent ∈ route.parentRefs, ∀ gateway,
    gateways.lookup (gatewayMapKey (parent.parentNamespace.getD route.objectNamespace) parent.name) =
      some gateway →
    ∀ listener ∈ gateway.listeners, Ascii (listener.hostname.getD "")

variable {rt opts route gateways hostnames}

/-- **Every name that is served was met at a listener.** -/
theorem served_met (hascii : route.AsciiListeners gateways) (accepted : List String) (r : Result)
    (h : host ∈ (targetsForHTTPRoute rt route gateways accepted hostnames opts r).1.keys) :
    Met hostnames host := by
  obtain ⟨parent, hparent, gateway, ⟨-, -, hgateway⟩, listener, hlistener, -, raw, hraw, hmerged⟩ :=
    (mem_served_keys r host).1 h
  have hlisted : listener ∈ gateway.listeners := (mem_filter.1 hlistener).1
  exact ⟨raw, hraw, _, hascii parent hparent gateway hgateway listener hlisted, hmerged⟩

end Served

/-- A name that two hostnames give is the route's, or lies under the route's wildcard. -/
theorem intersectHostname_cases {listener : String} (h : intersectHostname raw listener = some host) :
    host = raw ∨ host = listener ∧ ∃ t : String, raw = "*." ++ t ∧ '.' :: t.toList <:+ listener.toList := by
  unfold intersectHostname at h
  by_cases hsame : listener = "" ∨ listener = raw
  · rw [if_pos hsame] at h
    exact .inl (Option.some.inj h).symm
  · rw [if_neg hsame] at h
    dsimp only at h
    by_cases hwild : hasPrefix raw "*." = true
    · obtain ⟨t, rfl⟩ := (wildcard_iff raw).1 hwild
      have hsuffix : hasSuffix listener (String.ofList (("*." ++ t).toList.drop 1)) = true →
          '.' :: t.toList <:+ listener.toList := by
        rw [tail_wildcard, hasSuffix, isSuffixOf_iff_suffix, String.toList_append]
        exact id
      split_ifs at h with h₁ h₂ h₃ h₄ h₅ h₆ h₇
      · exact .inl (Option.some.inj h).symm
      · exact .inr ⟨(Option.some.inj h).symm, t, rfl, hsuffix h₄⟩
      · exact .inl (Option.some.inj h).symm
      · exact .inr ⟨(Option.some.inj h).symm, t, rfl, hsuffix h₇⟩
    · rw [Bool.not_eq_true] at hwild
      rw [hwild] at h
      simp only [Bool.not_false, Bool.and_true, Bool.and_false, Bool.false_eq_true, ↓reduceIte] at h
      split_ifs at h
      exact .inl (Option.some.inj h).symm

/-- The text of a name that is not normalized again. -/
theorem normalizeDNSName_valid {h : String} (hwild : hasPrefix h "*." = false) (hvalid : validHostname h = true) :
    normalizeDNSName h = h :=
  normalizeDNSName_text ((validHostname_concrete hwild).1 hvalid).2.1

/-- What is published is a valid name strictly inside the zone. -/
theorem publishable_inside {rt : SourceRuntime} {opts : Options} {name : String}
    (h : publishable rt opts host = some name) :
    name = normalizeHostname rt host ∧ hasPrefix name "*." = false ∧
      '.' :: (normalizeDNSName opts.zone).toList <:+ name.toList ∧ opts.domainAllowed name = true ∧
      opts.hostInZone name = true ∧ name ≠ normalizeDNSName opts.zone := by
  unfold publishable at h
  dsimp only at h
  split at h
  · cases h
  · rename_i hall
    simp only [not_or, Bool.not_eq_false, Bool.not_eq_true] at hall
    obtain ⟨-, hdomain, hvalid, -, hwild, hzone, hapex⟩ := hall
    obtain rfl := Option.some.inj h
    refine ⟨rfl, hwild, ?_, hdomain, hzone, hapex⟩
    have hin := hzone
    unfold Options.hostInZone at hin
    dsimp only at hin
    rw [normalizeDNSName_valid hwild hvalid] at hin
    split at hin
    · cases hin
    · rcases (within_iff _ _).1 hin with heq | hsuffix
      · exact absurd (String.toList_injective heq) hapex
      · exact hsuffix

/-- A hostname that is refused by `routeHostnamesMayPublish`, for an ASCII route. -/
structure Refused (rt : SourceRuntime) (opts : Options) (raw : String) : Prop where
  valid : validHostname (normalizeHostname rt raw) = true
  wildcard : ∀ s, normalizeHostname rt raw = "*." ++ s →
    ¬ Within (normalizeDNSName opts.zone).toList s.toList ∧ ¬ Within s.toList (normalizeDNSName opts.zone).toList
  concrete : hasPrefix (normalizeHostname rt raw) "*." = false →
    opts.domainAllowed (normalizeHostname rt raw) = true →
    opts.hostInZone (normalizeHostname rt raw) = true → normalizeHostname rt raw = normalizeDNSName opts.zone

theorem refused_of_mayPublish {rt : SourceRuntime} {opts : Options} {hostnames : List String}
    (h : routeHostnamesMayPublish rt hostnames opts = false) (hraw : raw ∈ hostnames) : Refused rt opts raw := by
  unfold routeHostnamesMayPublish at h
  dsimp only at h
  have hno := any_eq_false.1 h raw hraw
  split at hno
  · exact absurd rfl hno
  · rename_i hvalid
    rw [not_or, Bool.not_eq_false] at hvalid
    by_cases hwild : hasPrefix (normalizeHostname rt raw) "*." = true
    · rw [if_pos hwild] at hno
      refine ⟨hvalid.1, fun s hs => ?_, fun hconcrete => absurd hwild (by rw [hconcrete]; decide)⟩
      rw [hs, trimPrefix_wildcard, Bool.not_eq_true] at hno
      rw [Bool.or_eq_false_iff, ← Bool.not_eq_true, within_iff] at hno
      refine ⟨hno.1, fun hwithin => ?_⟩
      rcases hwithin with heq | hsuffix
      · exact hno.1 (.inl heq.symm)
      · have hends : hasSuffix (normalizeDNSName opts.zone) ("." ++ s) = true := by
          rw [hasSuffix, isSuffixOf_iff_suffix, String.toList_append]
          exact hsuffix
        rw [hno.2] at hends
        cases hends
    · rw [if_neg hwild] at hno
      refine ⟨hvalid.1, fun s hs => absurd ((wildcard_iff _).2 ⟨s, hs⟩) hwild, fun _ hdomain hzone => ?_⟩
      rw [hdomain, hzone, Bool.true_and, Bool.true_and, Bool.not_eq_true, bne_eq_false_iff_eq] at hno
      exact hno

/-- A valid name that begins with an asterisk is a wildcard. -/
theorem wildcard_of_star {h : String} (hvalid : validHostname h = true) {l : List Char}
    (hstar : h.toList = '*' :: l) : ∃ s : String, h = "*." ++ s ∧ l = '.' :: s.toList := by
  by_cases hwild : hasPrefix h "*." = true
  · obtain ⟨s, rfl⟩ := (wildcard_iff h).1 hwild
    rw [toList_wildcard] at hstar
    exact ⟨s, rfl, (List.cons.inj hstar).2.symm⟩
  · rw [Bool.not_eq_true] at hwild
    obtain ⟨c, hc, halnum⟩ := ((validHostname_concrete hwild).1 hvalid).2.1.first
    rw [hstar] at hc
    cases hc
    exact absurd halnum (by decide)

/-- **A name that a refused hostname meets is not published.** -/
theorem met_not_publishable {rt : SourceRuntime} (hrt : AsciiIdentity rt) {opts : Options} {listener : String}
    (hraw : Ascii raw) (hnormal : Normalized raw.toList) (hrefused : Refused rt opts raw)
    (hlistener : Ascii listener) (hmet : intersectHostname raw (normalizeDNSName listener) = some host) :
    publishable rt opts host = none := by
  cases hname : publishable rt opts host with
  | none => rfl
  | some name =>
    exfalso
    obtain ⟨hnorm, hwild, hzone, hdomain, hin, hapex⟩ := publishable_inside hname
    rcases intersectHostname_cases hmet with hhost | ⟨hhost, t, hwildcard, hsuffix⟩ <;> rw [hhost] at hnorm
    · rw [hnorm] at hwild hdomain hin hapex
      exact hapex (hrefused.concrete hwild hdomain hin)
    · -- the ends of the wildcard and of the listener's hostname are normalized alike
      subst hwildcard
      have hascii := ascii_normalizeDNSName hlistener
      rw [normalizeHostname_ascii hrt hascii] at hnorm
      have htail : trimRight ('.' :: t.toList) ≠ [] := trimRight_cons_ne_nil (by decide) _
      have hstar : (normalizeHostname rt ("*." ++ t)).toList = '*' :: rightNormal ('.' :: t.toList) := by
        rw [normalizeHostname_ascii hrt hraw, normalizeDNSName_of_normalized hnormal, toList_wildcard]
        exact rightNormal_append ['*'] htail
      obtain ⟨s, hs, hrest⟩ := wildcard_of_star hrefused.valid hstar
      obtain ⟨front, hfront⟩ := hsuffix
      have hunder : '.' :: s.toList <:+ name.toList := by
        rw [hnorm, normalizeDNSName_twice, ← hfront, rightNormal_append front htail, hrest]
        exact suffix_append _ _
      obtain ⟨hnot, hnot'⟩ := hrefused.wildcard s hs
      rcases strict_suffix_total hzone hunder with h | h
      · exact hnot (within_of_suffix h)
      · exact hnot' (within_of_suffix h)

theorem appendSource_nothing (rt : SourceRuntime) (opts : Options) (ref : SourceRef) (b : EndpointBudget)
    (ctx : Context) (r : Result) (source : String) (hosts targets : List String) (ttl : Int)
    (h : publishedHosts rt opts hosts = []) :
    (b.appendSource rt ctx r opts source ref hosts targets ttl).result.endpoints = r.endpoints := by
  obtain ⟨hevents, hhosts⟩ := publishableHosts_eq rt opts ref r hosts
  unfold EndpointBudget.appendSource
  dsimp only
  rw [hhosts, h]
  split
  · exact markIncomplete_endpoints r source
  · split
    · have hreport := onlyEvents_addEvent ((publishableHosts rt r opts ref hosts).1.markIncomplete source) ref ""
      dsimp only
      rw [(hreport _).endpoints, markIncomplete_endpoints, hevents.endpoints]
    · exact hevents.endpoints

theorem stageHosts_nothing (rt : SourceRuntime) (opts : Options) (ref : SourceRef)
    (targetsByHost : GoMap GatewayAddressTargets) (budget : EndpointBudget) (limit : Int) {hosts : List String}
    (h : ∀ host ∈ hosts, publishable rt opts host = none) {r : Result} (hr : r.endpoints = [])
    (staged : EndpointBudget) (ctx : Context) :
    (stageHosts rt opts ref targetsByHost budget limit hosts r staged ctx).result.endpoints = [] := by
  induction hosts generalizing r staged ctx with
  | nil => exact hr
  | cons host hosts ih =>
    unfold stageHosts
    dsimp only
    split
    · rfl
    · refine ih (fun x hx => h x (mem_cons_of_mem _ hx)) ?_ _ _
      rw [appendSource_nothing]
      · exact hr
      · unfold publishedHosts
        rw [filterMap_cons_none (h host mem_cons_self)]
        rfl

/-- **Skipping a route that is out of scope loses nothing.** If `routeHostnamesMayPublish` refuses the
hostnames of a route, then publishing it, whatever parents its status accepts, gives no endpoint. -/
theorem skipped_route_publishes_nothing (rt : SourceRuntime) (hrt : AsciiIdentity rt) (ctx : Context)
    (route : HTTPRoute) (gateways : GoMap Gateway) (opts : Options) (budget : EndpointBudget)
    (hhosts : ∀ host ∈ route.hostnames, Ascii host) (hlisteners : route.AsciiListeners gateways)
    (hskip : routeHostnamesMayPublish rt (uniqueSorted route.hostnames) opts = false) :
    (publishRoute rt ctx route gateways (uniqueSorted route.hostnames) opts budget).result.endpoints = [] := by
  have hmarks := targetsForHTTPRoute_marks rt opts route gateways (acceptedParentRefs route)
    (uniqueSorted route.hostnames) {}
  unfold publishRoute
  rcases htargets : targetsForHTTPRoute rt route gateways (acceptedParentRefs route)
    (uniqueSorted route.hostnames) opts {}
    with ⟨targetsByHost, r⟩
  rw [htargets] at hmarks
  dsimp only
  split
  · have hreport := onlyEvents_addEvent (r.markIncomplete sourceGateway) route.ref ""
    dsimp only
    rw [(hreport _).endpoints, markIncomplete_endpoints, hmarks.endpoints]
  · refine stageHosts_nothing rt opts _ _ _ _ (fun host hhost => ?_) hmarks.endpoints _ _
    have hkey : host ∈ (targetsForHTTPRoute rt route gateways (acceptedParentRefs route)
      (uniqueSorted route.hostnames) opts
        {}).1.keys := by
      rw [htargets]
      exact (sortStrings_perm _).mem_iff.1 hhost
    obtain ⟨raw, hraw, listener, hlistener, hmet⟩ := served_met hlisteners _ _ hkey
    obtain ⟨-, original, horiginal, rfl⟩ := mem_uniqueSorted.1 hraw
    exact met_not_publishable hrt (ascii_normalizeDNSName (hhosts original horiginal))
      (normalized_normalizeDNSName original) (refused_of_mayPublish hskip hraw) hlistener hmet

/-- Libraries that convert, quote and select as little as they may. -/
def plainRuntime : SourceRuntime where
  toASCII := some
  quote := id
  parseDuration _ := none
  selectors _ := none

/-- A wildcard route of another zone, at a Gateway with a listener under the wildcard. -/
def strayRoute : HTTPRoute where
  objectNamespace := "apps"
  name := "stray"
  parentRefs := [{ name := "edge" }]
  hostnames := ["*.other.org"]
  parents := [{ parentRef := { name := "edge" }
                conditions := [⟨"Accepted", .isTrue, 0⟩, ⟨"ResolvedRefs", .isTrue, 0⟩] }]

/-- A Gateway that serves another zone. -/
def strayGateways : GoMap Gateway := (∅ : GoMap Gateway).set "apps/edge"
  { objectNamespace := "apps", name := "edge", listeners := [{ hostname := some "api.other.org" }]
    addresses := [⟨some .ipAddress, "192.0.2.1"⟩] }

theorem skipped_route_stray :
    routeHostnamesMayPublish plainRuntime (uniqueSorted strayRoute.hostnames) { zone := "example.com" } = false ∧
      (publishRoute plainRuntime none strayRoute strayGateways (uniqueSorted strayRoute.hostnames)
        { zone := "example.com" } ⟨10, 10⟩).result.endpoints = [] := by
  have hskip : routeHostnamesMayPublish plainRuntime (uniqueSorted strayRoute.hostnames)
    { zone := "example.com" } = false := by
    decide +kernel
  have hhosts : ∀ host ∈ strayRoute.hostnames, Ascii host := by
    intro host hhost
    obtain rfl := mem_singleton.1 hhost
    unfold Ascii
    decide +kernel
  have hlisteners : strayRoute.AsciiListeners strayGateways := by
    intro parent hparent gateway hgateway listener hlistener
    obtain rfl := mem_singleton.1 hparent
    unfold strayGateways at hgateway
    rw [GoMap.lookup_set, if_pos (by decide)] at hgateway
    obtain rfl := Option.some.inj hgateway
    obtain rfl := mem_singleton.1 hlistener
    unfold Ascii
    decide +kernel
  exact ⟨hskip, skipped_route_publishes_nothing plainRuntime (fun _ _ => rfl) none strayRoute strayGateways
    { zone := "example.com" } ⟨10, 10⟩ hhosts hlisteners hskip⟩

end FortigateDns.Source
