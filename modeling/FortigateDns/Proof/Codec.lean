import FortigateDns.Proof.Hostnames
import FortigateDns.Proof.Idempotence
import FortigateDns.Spec.Listing

/-!
# The codec of device records

`endpointToRecord` writes a hostname relative to the zone and a canonical name with a dot at its end;
`toEndpoint` reads both back.

* `fixed_iff`, `fixed_below`: names that normalization leaves alone.
-/

namespace FortigateDns

open Go List

variable {s zone name relative t : String} {e : Endpoint}

theorem fixed_iff (s : String) :
    normalizeDNSName s = s ↔ Normalized s.toList ∧ ∀ c ∈ s.toList.getLast?, c ≠ '.' ∧ isSpace c = false := by
  rw [← rightNormal_eq_self_iff]
  constructor
  · intro h
    have hnormal := normalized_normalizeDNSName s
    rw [h] at hnormal
    refine ⟨hnormal, ?_⟩
    rw [← normalizeDNSName_of_normalized hnormal, h]
  · rintro ⟨hnormal, hright⟩
    exact String.toList_injective ((normalizeDNSName_of_normalized hnormal).trans hright)

theorem trimSpace_fixed (h : normalizeDNSName s = s) : trimSpace s = s := by
  have hsettled : ¬ Unsettled s := (normalizeDNSName_idem_iff s).1 (by rw [h, h])
  have htrim := trimSpace_of_settled hsettled
  rwa [h] at htrim

theorem ne_empty_iff : s ≠ "" ↔ s.toList ≠ [] := by
  rw [ne_eq, ← String.toList_inj]
  rfl

/-- A label in front of a name. -/
theorem fixed_below (hs : Normalized s.toList) (hne : s ≠ "") (hzone : normalizeDNSName zone = zone)
    (hzne : zone ≠ "") : normalizeDNSName (s ++ "." ++ zone) = s ++ "." ++ zone := by
  obtain ⟨hnormal, hlast⟩ := (fixed_iff zone).1 hzone
  rw [ne_empty_iff] at hne hzne
  have htext : (s ++ "." ++ zone).toList = s.toList ++ '.' :: zone.toList := by
    rw [String.toList_append, String.toList_append, append_assoc]
    rfl
  have hdot : lowerChar '.' = '.' := (lowerChar_eq_iff (.inl rfl) '.').2 rfl
  refine (fixed_iff _).2 ⟨⟨?_, ?_⟩, ?_⟩
  · rw [htext, map_append, map_cons, hs.lower, hnormal.lower, hdot]
  · rw [htext, head?_append_of_ne_nil _ hne]
    exact hs.head
  · rw [htext, getLast?_append_of_ne_nil _ (cons_ne_nil _ _), getLast?_cons_of_ne_nil hzne]
    exact hlast

/-- A name with a dot at its end is read without it. -/
theorem normalizeDNSName_dot (h : normalizeDNSName s = s) (hne : s ≠ "") :
    trimSpace (s ++ ".") = s ++ "." ∧ normalizeDNSName (s ++ ".") = s := by
  obtain ⟨hnormal, -⟩ := (fixed_iff s).1 h
  rw [ne_empty_iff] at hne
  have htext : (s ++ ".").toList = s.toList ++ ['.'] := String.toList_append
  have htrim : trimBoth isSpace (s ++ ".").toList = (s ++ ".").toList := by
    refine trimBoth_eq_self ?_ ?_
    · rw [htext, head?_append_of_ne_nil _ hne]
      exact hnormal.head
    · rw [htext, getLast?_concat]
      rintro c ⟨⟩
      decide
  have hdot : lowerChar '.' = '.' := (lowerChar_eq_iff (.inl rfl) '.').2 rfl
  refine ⟨?_, String.toList_injective ?_⟩
  · rw [trimSpace, htrim, String.ofList_toList]
  · rw [toList_normalizeDNSName, htrim, htext, map_append, hnormal.lower, map_singleton, hdot, cutDot,
      if_pos (suffix_append _ _), dropLast_concat]

theorem cutSuffix_append (s p : String) : cutSuffix (s ++ p) p = some s := by
  have hsuffix : hasSuffix (s ++ p) p = true := by
    rw [hasSuffix, isSuffixOf_iff_suffix, String.toList_append]
    exact suffix_append _ _
  unfold cutSuffix
  rw [if_pos hsuffix, String.toList_append, length_append, Nat.add_sub_cancel, take_left, String.ofList_toList]

theorem relativeHostname_below (hname : normalizeDNSName name = relative ++ "." ++ normalizeDNSName zone)
    (hne : relative ≠ "") : relativeHostname name zone = .ok relative := by
  have hapex : relative ++ "." ++ normalizeDNSName zone ≠ normalizeDNSName zone := by
    intro h
    have hlength := congrArg (fun s : String => s.toList.length) h
    simp only [String.toList_append, length_append] at hlength
    have hdot : ".".toList.length = 1 := rfl
    omega
  unfold relativeHostname
  dsimp only
  rw [hname, if_neg hapex, String.append_assoc, cutSuffix_append]
  dsimp only
  rw [if_neg hne]

/-- The row that is written for a normalized endpoint. -/
def writtenRow (e : Endpoint) (hostname : String) : FortiRecord :=
  let record : FortiRecord :=
    { hostname := hostname, type := e.recordType, ttl := e.ttl,
      status := if e.disabled then "disable" else "enable" }
  match e.targets with
  | [] => record
  | target :: _ =>
    if e.recordType = recordAAAA then { record with ipv6 := target }
    else if e.recordType = recordCNAME then { record with canonicalName := normalizeDNSName target ++ "." }
    else { record with ip := target }

/-- The types of records that are written. -/
def RecordType (type : String) : Prop := type = recordA ∨ type = recordAAAA ∨ type = recordCNAME

/-- **A name below the zone is written.** -/
theorem endpointToRecord_below (htype : RecordType e.normalize.recordType)
    (hname : normalizeDNSName e.normalize.dnsName = relative ++ "." ++ normalizeDNSName zone)
    (hne : relative ≠ "") : endpointToRecord e zone = .ok (writtenRow e.normalize relative) := by
  have hsupported : ¬ (e.normalize.recordType ≠ recordA ∧ e.normalize.recordType ≠ recordAAAA ∧
      e.normalize.recordType ≠ recordCNAME) := by
    rintro ⟨hA, hAAAA, hCNAME⟩
    rcases htype with h | h | h
    · exact hA h
    · exact hAAAA h
    · exact hCNAME h
  unfold endpointToRecord writtenRow
  dsimp only
  rw [if_neg hsupported, relativeHostname_below hname hne]
  cases e.normalize.targets with
  | nil => rfl
  | cons target rest =>
    dsimp only [bind, Except.bind, pure, Except.pure]
    split
    · rfl
    · split <;> rfl

/-- A row as it is listed, before the device has given it an ID. -/
def listed (record : FortiRecord) : ListedRecord := { toFortiRecord := record }

/-- The target that is read back. -/
def readTarget (type target : String) : String := if type = recordCNAME then normalizeDNSName target else target

/-- A target that can be read back: it is not blank, and as a name it is left alone. -/
structure Readable (type target : String) : Prop where
  text : trimSpace target ≠ ""
  name : type = recordCNAME → normalizeDNSName (normalizeDNSName target) = normalizeDNSName target ∧
    normalizeDNSName target ≠ ""

theorem qualifiedCanonicalName_absolute (h : normalizeDNSName name = name) (hne : name ≠ "") (zone : String) :
    qualifiedCanonicalName (name ++ ".") zone = name := by
  obtain ⟨htrim, hname⟩ := normalizeDNSName_dot h hne
  have hdot : hasSuffix (name ++ ".") "." = true := by
    rw [hasSuffix, isSuffixOf_iff_suffix, String.toList_append]
    exact suffix_append _ _
  have hsome : name ++ "." ≠ "" := by
    rw [ne_empty_iff, String.toList_append]
    exact append_ne_nil_of_right_ne_nil _ (by decide)
  unfold qualifiedCanonicalName
  dsimp only
  rw [htrim, if_neg hsome, if_pos hdot, hname]

theorem appendIfNotEmpty_text (h : trimSpace t ≠ "") : appendIfNotEmpty [] t = [t] := if_neg h

theorem appendIfNotEmpty_blank (h : trimSpace t = "") : appendIfNotEmpty [] t = [] := if_pos h

/-- The targets that are listed for a row, by its type. -/
theorem listed_targets (r : ListedRecord) (zone : String) :
    r.targets recordA zone = appendIfNotEmpty [] r.ip ∧ r.targets recordAAAA zone = appendIfNotEmpty [] r.ipv6 ∧
      r.targets recordCNAME zone = appendIfNotEmpty [] (qualifiedCanonicalName r.canonicalName zone) := by
  unfold ListedRecord.targets
  refine ⟨if_pos rfl, ?_, ?_⟩
  · rw [if_neg (by decide), if_pos rfl]
  · rw [if_neg (by decide), if_neg (by decide), if_pos rfl]

/-- The targets of a row that was written. -/
theorem written_targets (htype : RecordType e.recordType)
    (htargets : e.targets = [] ∨ ∃ t, e.targets = [t] ∧ Readable e.recordType t) :
    (listed (writtenRow e relative)).targets e.recordType zone = e.targets.map (readTarget e.recordType) := by
  have hblank : trimSpace "" = "" := by decide +kernel
  obtain ⟨hA, hAAAA, hCNAME⟩ := listed_targets (listed (writtenRow e relative)) zone
  rcases htargets with hnone | ⟨t, ht, hread⟩
  · have hrow : (listed (writtenRow e relative)).ip = "" ∧ (listed (writtenRow e relative)).ipv6 = "" ∧
        (listed (writtenRow e relative)).canonicalName = "" := by
      unfold listed writtenRow
      rw [hnone]
      exact ⟨rfl, rfl, rfl⟩
    have hempty : qualifiedCanonicalName "" zone = "" := by
      unfold qualifiedCanonicalName
      dsimp only
      rw [hblank, if_pos rfl]
    rw [hrow.1, appendIfNotEmpty_blank hblank] at hA
    rw [hrow.2.1, appendIfNotEmpty_blank hblank] at hAAAA
    rw [hrow.2.2, hempty, appendIfNotEmpty_blank hblank] at hCNAME
    rw [hnone]
    rcases htype with h | h | h
    · rw [h, hA]
      rfl
    · rw [h, hAAAA]
      rfl
    · rw [h, hCNAME]
      rfl
  · rw [ht, map_singleton]
    unfold readTarget
    rcases htype with h | h | h
    · have hrow : (listed (writtenRow e relative)).ip = t := by
        unfold listed writtenRow
        rw [ht]
        dsimp only
        rw [h, if_neg (c := recordA = recordAAAA) (by decide), if_neg (c := recordA = recordCNAME) (by decide)]
      rw [h, hA, hrow, appendIfNotEmpty_text hread.text, if_neg (by decide)]
    · have hrow : (listed (writtenRow e relative)).ipv6 = t := by
        unfold listed writtenRow
        rw [ht]
        dsimp only
        rw [if_pos h]
      rw [h, hAAAA, hrow, appendIfNotEmpty_text hread.text, if_neg (by decide)]
    · have hrow : (listed (writtenRow e relative)).canonicalName = normalizeDNSName t ++ "." := by
        unfold listed writtenRow
        rw [ht]
        dsimp only
        rw [h, if_neg (c := recordCNAME = recordAAAA) (by decide), if_pos (c := recordCNAME = recordCNAME) rfl]
      obtain ⟨hfixed, hne⟩ := hread.name h
      rw [h, hCNAME, hrow, qualifiedCanonicalName_absolute hfixed hne, appendIfNotEmpty_text, if_pos rfl]
      rwa [trimSpace_fixed hfixed]

/-- **What is read back of a row that was written.** -/
theorem toEndpoint_written (htype : RecordType e.recordType) (hrelative : normalizeDNSName relative = relative)
    (hne : relative ≠ "") (htargets : e.targets = [] ∨ ∃ t, e.targets = [t] ∧ Readable e.recordType t) :
    (listed (writtenRow e relative)).toEndpoint zone =
      { dnsName := relative ++ "." ++ normalizeDNSName zone, recordType := e.recordType,
        targets := e.targets.map (readTarget e.recordType), ttl := e.ttl, zone := zone, disabled :=
          e.disabled } := by
  have hupper : toUpper e.recordType = e.recordType := by
    rcases htype with h | h | h <;> rw [h] <;> decide +kernel
  have hrow : (listed (writtenRow e relative)).hostname = relative ∧
    (listed (writtenRow e relative)).type = e.recordType ∧
      (listed (writtenRow e relative)).ttl = e.ttl ∧
      (listed (writtenRow e relative)).status = if e.disabled then "disable" else "enable" := by
    unfold listed writtenRow
    dsimp only
    split
    · exact ⟨rfl, rfl, rfl, rfl⟩
    · split
      · exact ⟨rfl, rfl, rfl, rfl⟩
      · split <;> exact ⟨rfl, rfl, rfl, rfl⟩
  have hid : recordID (listed (writtenRow e relative)) = "" := rfl
  have hname : qualifiedHostname relative zone = relative ++ "." ++ normalizeDNSName zone := by
    unfold qualifiedHostname
    dsimp only
    rw [hrelative, if_neg hne]
  have hstatus : (equalFold (if e.disabled then "disable" else "enable") "disable" ||
      equalFold (if e.disabled then "disable" else "enable") "disabled") = e.disabled := by
    cases e.disabled <;> decide +kernel
  unfold ListedRecord.toEndpoint
  rw [hrow.1, hrow.2.1, hrow.2.2.1, hrow.2.2.2, hupper, written_targets htype htargets, hid, hname, hstatus]

/-- Endpoints that agree in what a row stores have one key and are one record. -/
theorem sameRecord {f : Endpoint} (hname : f.normalize.dnsName = e.normalize.dnsName)
    (hzone : f.normalize.zone = e.normalize.zone) (htype : f.normalize.recordType = e.normalize.recordType)
    (htargets : f.normalize.targets = e.normalize.targets) (httl : f.normalize.ttl = e.normalize.ttl)
    (hdisabled : f.normalize.disabled = e.normalize.disabled) : f.key = e.key ∧ f.equalRecord e = true := by
  constructor
  · unfold Endpoint.key
    dsimp only
    rw [hname, hzone, htype, htargets]
  · unfold Endpoint.equalRecord
    dsimp only
    rw [hname, htype, htargets, httl, hdisabled]
    simp

/-- **Writing and reading back**, for an endpoint whose normal form has a name below the zone and a target that
can be read back. -/
theorem roundtrip (htype : RecordType e.normalize.recordType)
    (hname : e.normalize.dnsName = relative ++ "." ++ zone)
    (hfixed : normalizeDNSName e.normalize.dnsName = e.normalize.dnsName)
    (hrelative : normalizeDNSName relative = relative) (hne : relative ≠ "")
    (hzone : normalizeDNSName zone = zone) (hezone : normalizeDNSName e.zone = zone)
    (htargets : e.normalize.targets = [] ∨ ∃ t, e.normalize.targets = [t] ∧ Readable e.normalize.recordType t ∧
      normalizeTarget (readTarget e.normalize.recordType t) = t) :
    ∃ r, endpointToRecord e zone = .ok r ∧ ((listed r).toEndpoint zone).key = e.key ∧
      ((listed r).toEndpoint zone).equalRecord e = true := by
  have hbelow : normalizeDNSName e.normalize.dnsName = relative ++ "." ++ normalizeDNSName zone := by
    rw [hfixed, hname, hzone]
  have hwritten := endpointToRecord_below htype hbelow hne
  refine ⟨_, hwritten, ?_⟩
  have hread : e.normalize.targets = [] ∨ ∃ t, e.normalize.targets = [t] ∧ Readable e.normalize.recordType t :=
    htargets.imp_right fun ⟨t, ht, hreadable, _⟩ => ⟨t, ht, hreadable⟩
  rw [toEndpoint_written htype hrelative hne hread, hzone]
  have hupper : toUpper (trimSpace e.normalize.recordType) = e.normalize.recordType := by
    rcases htype with h | h | h <;> rw [h] <;> decide +kernel
  refine sameRecord ?_ ?_ ?_ ?_ ?_ ?_
  · rw [normalize_dnsName, ← hname, hfixed]
  · rw [normalize_zone, normalize_zone, hzone, hezone]
  · rw [normalize_recordType]
    exact hupper
  · rw [normalize_targets]
    rcases htargets with hnone | ⟨t, ht, -, hsame⟩
    · rw [hnone]
      rfl
    · rw [ht, map_singleton, map_singleton, hsame]
      rfl
  · rw [normalize_ttl]
  · rw [normalize_disabled]

/-- A wildcard in front of a name is left alone. -/
theorem fixed_wildcard (h : NameText s.toList) : normalizeDNSName ("*." ++ s) = "*." ++ s := by
  have hne : s ≠ "" := ne_empty_iff.2 h.ne_nil
  have hstar : Normalized "*".toList := ⟨by decide +kernel,
    fun c hc => by obtain rfl := Option.some.inj hc; decide⟩
  have htext : "*." = "*" ++ "." := by decide
  rw [htext]
  exact fixed_below hstar (by decide) (normalizeDNSName_text h) hne

/-- A valid hostname below a zone, in two parts. -/
theorem valid_below (hvalid : Source.validHostname name = true) (hbelow : '.' :: zone.toList <:+ name.toList) :
    normalizeDNSName name = name ∧
      ∃ relative, name = relative ++ "." ++ zone ∧ normalizeDNSName relative = relative ∧ relative ≠ "" := by
  obtain ⟨front, hfront⟩ := hbelow
  have hsplit : ∀ {front : List Char} {s : String}, front ++ '.' :: zone.toList = s.toList →
      s = String.ofList front ++ "." ++ zone := by
    intro front s h
    refine String.toList_injective ?_
    rw [← h, String.toList_append, String.toList_append, String.toList_ofList (l := front), append_assoc]
    rfl
  by_cases hwild : hasPrefix name "*." = true
  · obtain ⟨s, rfl⟩ := (Source.wildcard_iff name).1 hwild
    obtain ⟨-, hname, -⟩ := Source.validHostname_wildcard hvalid
    refine ⟨fixed_wildcard hname, String.ofList front, hsplit hfront, ?_⟩
    rw [Source.toList_wildcard] at hfront
    -- the zone begins behind the asterisk or further on
    rcases front with _ | ⟨c, _ | ⟨d, rest⟩⟩
    · rw [nil_append, List.cons.injEq] at hfront
      exact absurd hfront.1 (by decide)
    · rw [singleton_append, List.cons.injEq] at hfront
      rw [hfront.1]
      exact ⟨by decide +kernel, by decide⟩
    · rw [cons_append, cons_append, List.cons.injEq, List.cons.injEq] at hfront
      obtain ⟨rfl, rfl, hrest⟩ := hfront
      rw [← hrest, nameText_dot_iff] at hname
      have htext : String.ofList ('*' :: '.' :: rest) = "*." ++ String.ofList rest := by
        refine String.toList_injective ?_
        rw [Source.toList_wildcard, String.toList_ofList, String.toList_ofList]
      have hrestName : NameText (String.ofList rest).toList := by
        rw [String.toList_ofList]
        exact hname.1
      rw [htext]
      refine ⟨fixed_wildcard hrestName, ?_⟩
      rw [ne_empty_iff, Source.toList_wildcard]
      exact cons_ne_nil _ _
  · obtain ⟨-, hname, -⟩ := (Source.validHostname_concrete (Bool.eq_false_iff.2 hwild)).1 hvalid
    refine ⟨normalizeDNSName_text hname, String.ofList front, hsplit hfront, ?_⟩
    rw [← hfront, nameText_dot_iff] at hname
    have hfrontName : NameText (String.ofList front).toList := by
      rw [String.toList_ofList]
      exact hname.1
    exact ⟨normalizeDNSName_text hfrontName, ne_empty_iff.2 hfrontName.ne_nil⟩

/-- A target in its normal form, and the type of its record. -/
structure MatchingTarget (type target : String) : Prop where
  normal : normalizeTarget target = target
  ne_empty : target ≠ ""
  type : type = recordTypeForTarget target

theorem recordType_of_target (target : String) : RecordType (recordTypeForTarget target) := by
  unfold recordTypeForTarget
  split
  · exact .inr (.inr rfl)
  · split
    · exact .inl rfl
    · exact .inr (.inl rfl)

theorem MatchingTarget.readable {type : String} (h : MatchingTarget type t) :
    Readable type t ∧ normalizeTarget (readTarget type t) = t := by
  have hcname : type = recordCNAME → normalizeDNSName t = t := by
    intro htype
    have hip : parseIP (trimSpace t) = none := by
      have hmatch := h.type
      rw [htype] at hmatch
      unfold recordTypeForTarget at hmatch
      split at hmatch
      · rename_i hnone
        exact hnone
      · split at hmatch
        · exact absurd hmatch (by decide)
        · exact absurd hmatch (by decide)
    rw [← normalizeTarget_none hip]
    exact h.normal
  refine ⟨⟨fun hblank => ?_, fun htype => ?_⟩, ?_⟩
  · refine h.ne_empty (h.normal.symm.trans ?_)
    unfold normalizeTarget
    rw [hblank]
    decide +kernel
  · rw [hcname htype, hcname htype]
    exact ⟨rfl, h.ne_empty⟩
  · unfold readTarget
    split
    · rename_i htype
      rw [hcname htype]
      exact h.normal
    · exact h.normal

theorem endpoint_roundtrip (hzone : normalizeDNSName zone = zone) (hezone : normalizeDNSName e.zone = zone)
    (hvalid : Source.validHostname e.dnsName = true) (hbelow : '.' :: zone.toList <:+ e.dnsName.toList)
    (htargets : e.targets = [t]) (hmatch : MatchingTarget e.recordType t) :
    ∃ r, endpointToRecord e zone = .ok r ∧ ((listed r).toEndpoint zone).key = e.key ∧
      ((listed r).toEndpoint zone).equalRecord e = true := by
  obtain ⟨hfixed, relative, hname, hrelative, hne⟩ := valid_below hvalid hbelow
  have hdns : e.normalize.dnsName = e.dnsName := by rw [normalize_dnsName, hfixed]
  have htype : RecordType e.recordType := hmatch.type ▸ recordType_of_target t
  have hnormal : e.normalize.recordType = e.recordType := by
    rw [normalize_recordType]
    rcases htype with h | h | h <;> rw [h] <;> decide +kernel
  have hlist : e.normalize.targets = [t] := by
    rw [normalize_targets, htargets, map_singleton, hmatch.normal]
    rfl
  have hsplit : e.normalize.dnsName = relative ++ "." ++ zone := by rw [hdns, hname]
  refine roundtrip ?_ hsplit ?_ hrelative hne hzone hezone (.inr ⟨t, hlist, ?_⟩)
  · rwa [hnormal]
  · rw [hdns, hfixed]
  · rw [hnormal]
    exact hmatch.readable

/-- **A name as a device stores it**: no white space and no empty label, with or without one dot at its end. -/
structure DeviceName (s : String) : Prop where
  spaces : ∀ c ∈ s.toList, isSpace c = false
  labels : ∀ label ∈ labels (trimSuffix s ".").toList, label ≠ []

theorem DeviceName.trimmed (h : DeviceName s) : trimSpace s = s := by
  refine String.toList_injective ?_
  rw [trimSpace, String.toList_ofList]
  exact trimBoth_eq_self (fun c hc => h.spaces c (mem_of_head? hc)) (fun c hc => h.spaces c (mem_of_getLast? hc))

theorem DeviceName.ne_empty (h : DeviceName s) : s ≠ "" := by
  rintro rfl
  exact h.labels [] (by decide) rfl

/-- Such a name is left alone once it is normalized. -/
theorem DeviceName.fixed (h : DeviceName s) :
    normalizeDNSName (normalizeDNSName s) = normalizeDNSName s ∧ normalizeDNSName s ≠ "" := by
  have htrim := h.trimmed
  rw [normalizeDNSName_idem_iff]
  constructor
  · rintro ⟨c, hc, front, hfront⟩
    rw [htrim] at hfront
    have hc' : isSpace c = false := by
      refine h.spaces c ?_
      rw [← hfront]
      simp
    rcases hc with rfl | hspace
    · -- two dots at the end leave an empty label between them
      refine h.labels [] ?_ rfl
      rw [toList_trimSuffix_dot, ← hfront, append_cons, cutDot, if_pos (suffix_append _ _), dropLast_concat,
        Go.labels, splitOn_append_cons_self]
      simp
    · rw [hc'] at hspace
      cases hspace
  · intro hempty
    have hlower : ∀ {u : String}, toLower u = "" → u = "" := by
      intro u hu
      have hlist := congrArg String.toList hu
      rw [toLower, String.toList_ofList] at hlist
      exact String.toList_injective (map_eq_nil_iff.1 hlist)
    have hnothing : trimSuffix s "." = "" := by
      rcases normalizeDNSName_cases s with ⟨u, hu, hname⟩ | ⟨-, hname⟩
      · rw [htrim] at hu
        have hu' := hlower (hname.symm.trans hempty)
        rw [hu, trimSuffix, cutSuffix_append, Option.getD_some, hu']
      · exact absurd (htrim.symm.trans (hlower (hname.symm.trans hempty))) h.ne_empty
    refine h.labels [] ?_ rfl
    rw [hnothing]
    decide

/-- The address fields of a row hold an address or nothing. -/
def BlankOrAddress (s : String) : Prop := trimSpace s = "" ∨ (parseIP (trimSpace s)).isSome = true

/-- **A row of the device**: a supported type, a hostname, and a target that fits the type. -/
structure DeviceRow (row : ListedRecord) : Prop where
  type : RecordType (toUpper row.type)
  hostname : DeviceName row.hostname
  ip : toUpper row.type = recordA → BlankOrAddress row.ip
  ipv6 : toUpper row.type = recordAAAA → BlankOrAddress row.ipv6
  canonicalName : toUpper row.type = recordCNAME → DeviceName row.canonicalName

/-- A target that is normalized once is read back as it is. -/
theorem readable_address {type : String} (htype : type = recordA ∨ type = recordAAAA) {ip : IP}
    (hip : parseIP (trimSpace t) = some ip) :
    Readable type (normalizeTarget t) ∧
      normalizeTarget (readTarget type (normalizeTarget t)) = normalizeTarget t := by
  have hname : type ≠ recordCNAME := by
    rintro rfl
    rcases htype with h | h <;> exact absurd h (by decide)
  rw [normalizeTarget_some hip]
  refine ⟨⟨?_, fun h => absurd h hname⟩, ?_⟩
  · rw [trimSpace_of_address (parseIP_toText ip)]
    exact ne_empty_of_parseIP (parseIP_toText ip)
  · unfold readTarget
    rw [if_neg hname, normalizeTarget_toText]

theorem readable_name {q : String} (hfixed : normalizeDNSName q = q) (hne : q ≠ "") :
    Readable recordCNAME (normalizeTarget q) ∧
      normalizeTarget (readTarget recordCNAME (normalizeTarget q)) = normalizeTarget q := by
  have htrim := trimSpace_fixed hfixed
  have hread : ∀ t, readTarget recordCNAME t = normalizeDNSName t := fun t => if_pos rfl
  rw [hread]
  cases hip : parseIP q with
  | none =>
    have hsame : normalizeTarget q = q := by
      rw [normalizeTarget_none (by rw [htrim, hip]), hfixed]
    rw [hsame, hfixed, hsame]
    refine ⟨⟨by rwa [htrim], fun _ => ?_⟩, rfl⟩
    rw [hfixed, hfixed]
    exact ⟨rfl, hne⟩
  | some ip =>
    have htext := parseIP_toText ip
    have hname := parseIP_normalizeDNSName htext
    rw [normalizeTarget_some (by rw [htrim, hip])]
    refine ⟨⟨?_, fun _ => ⟨(normalizeDNSName_idem_iff _).2 (settled_of_address htext), ?_⟩⟩, ?_⟩
    · rw [trimSpace_of_address htext]
      exact ne_empty_of_parseIP htext
    · exact ne_empty_of_parseIP hname
    · exact normalizeTarget_some (by rw [trimSpace_of_address hname, hname])

/-- The canonical name of a row is served under a name that is left alone. -/
theorem qualified_fixed (h : DeviceName name) (hzone : normalizeDNSName zone = zone) (hzne : zone ≠ "") :
    normalizeDNSName (qualifiedCanonicalName name zone) = qualifiedCanonicalName name zone ∧
      qualifiedCanonicalName name zone ≠ "" := by
  obtain ⟨hfixed, hne⟩ := h.fixed
  unfold qualifiedCanonicalName qualifiedHostname
  dsimp only
  rw [h.trimmed, if_neg h.ne_empty]
  split
  · exact ⟨hfixed, hne⟩
  · rw [hzone]
    refine ⟨fixed_below (normalized_normalizeDNSName name) hne hzone hzne, ?_⟩
    rw [ne_empty_iff, String.toList_append, String.toList_append]
    exact append_ne_nil_of_left_ne_nil (append_ne_nil_of_right_ne_nil _ (by decide)) _

/-- The targets that a row is listed with: none, or one that is stable and can be read back. -/
theorem DeviceRow.targets {row : ListedRecord} (h : DeviceRow row) (hzone : normalizeDNSName zone = zone)
    (hzne : zone ≠ "") :
    row.targets (toUpper row.type) zone = [] ∨ ∃ t, row.targets (toUpper row.type) zone = [t] ∧ StableTarget t ∧
      Readable (toUpper row.type) (normalizeTarget t) ∧
      normalizeTarget (readTarget (toUpper row.type) (normalizeTarget t)) = normalizeTarget t := by
  obtain ⟨hA, hAAAA, hCNAME⟩ := listed_targets row zone
  have haddress : ∀ {s : String}, BlankOrAddress s → toUpper row.type = recordA ∨ toUpper row.type = recordAAAA →
      row.targets (toUpper row.type) zone = appendIfNotEmpty [] s →
      row.targets (toUpper row.type) zone = [] ∨ ∃ t, row.targets (toUpper row.type) zone = [t] ∧ StableTarget t ∧
        Readable (toUpper row.type) (normalizeTarget t) ∧
        normalizeTarget (readTarget (toUpper row.type) (normalizeTarget t)) = normalizeTarget t := by
    intro s hs htype hlist
    rcases hs with hblank | hsome
    · exact .inl (hlist.trans (appendIfNotEmpty_blank hblank))
    · obtain ⟨ip, hip⟩ := Option.isSome_iff_exists.1 hsome
      have htext : trimSpace s ≠ "" := by
        intro hempty
        rw [hempty] at hsome
        exact absurd hsome (by decide)
      exact .inr ⟨s, hlist.trans (appendIfNotEmpty_text htext), .inl hsome, readable_address htype hip⟩
  rcases h.type with htype | htype | htype
  · exact haddress (h.ip htype) (.inl htype) (by rw [htype, hA])
  · exact haddress (h.ipv6 htype) (.inr htype) (by rw [htype, hAAAA])
  · obtain ⟨hfixed, hne⟩ := qualified_fixed (h.canonicalName htype) hzone hzne
    have htrim := trimSpace_fixed hfixed
    refine .inr ⟨qualifiedCanonicalName row.canonicalName zone, ?_, .inr ⟨?_, fun u ip hu => ?_⟩, ?_⟩
    · rw [htype, hCNAME, appendIfNotEmpty_text (by rwa [htrim])]
    · exact (normalizeDNSName_idem_iff _).1 (by rw [hfixed, hfixed])
    · -- a name that is left alone does not end in a dot
      rw [htrim] at hu
      have hlast := ((fixed_iff _).1 hfixed).2 '.'
      rw [hu, String.toList_append] at hlast
      exact absurd rfl (hlast getLast?_concat).1
    · rw [htype]
      exact readable_name hfixed hne

theorem row_roundtrip (hzone : normalizeDNSName zone = zone) (hzne : zone ≠ "") {row : ListedRecord}
    (hrow : DeviceRow row) {served : Endpoint} (hqualified : served.dnsName = qualifiedHostname row.hostname zone)
    (hrecord : served.recordType = toUpper row.type)
    (hserved : served.targets = row.targets (toUpper row.type) zone) (hszone : served.zone = zone) :
    served.normalize.normalize = served.normalize ∧
      ∃ r, endpointToRecord served zone = .ok r ∧ ((listed r).toEndpoint zone).key = served.key ∧
        ((listed r).toEndpoint zone).equalRecord served = true := by
  obtain ⟨hfixed, hne⟩ := hrow.hostname.fixed
  have hname : served.dnsName = normalizeDNSName row.hostname ++ "." ++ zone := by
    rw [hqualified, qualifiedHostname, if_neg hne, hzone]
  have hbelow := fixed_below (normalized_normalizeDNSName row.hostname) hne hzone hzne
  have hdns : normalizeDNSName served.dnsName = served.dnsName := by rw [hname, hbelow]
  have hzones : normalizeDNSName served.zone = zone := by rw [hszone, hzone]
  have htype : served.normalize.recordType = toUpper row.type := by
    rw [normalize_recordType, hrecord]
    rcases hrow.type with h | h | h <;> rw [h] <;> decide +kernel
  have htargets := hrow.targets hzone hzne
  rw [← hserved] at htargets
  constructor
  · refine (normalize_normalize_iff served).2 ⟨?_, ?_, fun t ht => ?_⟩
    · exact (normalizeDNSName_idem_iff _).1 (by rw [hdns, hdns])
    · exact (normalizeDNSName_idem_iff _).1 (by rw [hzones, hzone])
    · rcases htargets with hnone | ⟨u, hu, hstable, -⟩
      · rw [hnone] at ht
        cases ht
      · rw [hu] at ht
        rw [mem_singleton.1 ht]
        exact hstable
  · have hsplit : served.normalize.dnsName = normalizeDNSName row.hostname ++ "." ++ zone := by
      rw [normalize_dnsName, hdns, hname]
    refine roundtrip ?_ hsplit ?_ hfixed hne hzone hzones ?_
    · rw [htype]
      exact hrow.type
    · rw [normalize_dnsName, hdns, hdns]
    · rw [normalize_targets, htype]
      rcases htargets with hnone | ⟨t, ht, -, hread⟩
      · rw [hnone]
        exact .inl rfl
      · rw [ht]
        exact .inr ⟨normalizeTarget t, rfl, hread⟩

/-- **The codec of device records.** An endpoint of the zone that is written is read back as the same
record. A row of the device, disabled or not, is read, written and read back as the same record. -/
theorem record_codec (zone : String) (hzone : normalizeDNSName zone = zone) (hzne : zone ≠ "") :
    (∀ (e : Endpoint) (t : String), normalizeDNSName e.zone = zone → Source.validHostname e.dnsName = true →
      '.' :: zone.toList <:+ e.dnsName.toList → e.targets = [t] → MatchingTarget e.recordType t →
      ∃ r, endpointToRecord e zone = .ok r ∧ ((listed r).toEndpoint zone).key = e.key ∧
        ((listed r).toEndpoint zone).equalRecord e = true) ∧
    ∀ row : ListedRecord, DeviceRow row → ∀ disabled : Bool,
      let served : Endpoint := { row.toEndpoint zone with disabled := disabled }
      ∃ r, endpointToRecord served.normalize zone = .ok r ∧
        ((listed r).toEndpoint zone).key = served.normalize.key ∧
        ((listed r).toEndpoint zone).equalRecord served.normalize = true ∧
        ((listed r).toEndpoint zone).key = served.key ∧
        ((listed r).toEndpoint zone).equalRecord served = true := by
  constructor
  · intro e t hezone hvalid hbelow htargets hmatch
    exact endpoint_roundtrip hzone hezone hvalid hbelow htargets hmatch
  · intro row hrow disabled served
    have hqualified : served.dnsName = qualifiedHostname row.hostname zone := by
      dsimp only [served, ListedRecord.toEndpoint]
    have hrecord : served.recordType = toUpper row.type := by
      dsimp only [served, ListedRecord.toEndpoint]
    have hserved : served.targets = row.targets (toUpper row.type) zone := by
      dsimp only [served, ListedRecord.toEndpoint]
    have hszone : served.zone = zone := by
      dsimp only [served, ListedRecord.toEndpoint]
    obtain ⟨hstable, r, hr, hkey, hequal⟩ := row_roundtrip hzone hzne hrow hqualified hrecord hserved hszone
    refine ⟨r, ?_, ?_, ?_, hkey, hequal⟩
    · rw [← hr]
      unfold endpointToRecord
      rw [hstable]
    · rw [hkey]
      unfold Endpoint.key
      rw [hstable]
    · rw [← hequal]
      unfold Endpoint.equalRecord
      rw [hstable]

/-- A name and a relative canonical name of the zone `example.com`. -/
theorem record_codec_example :
    (∃ r, endpointToRecord
        { dnsName := "www.example.com", recordType := "A", targets := ["192.0.2.1"], zone := "example.com" }
        "example.com" = .ok r ∧ ((listed r).toEndpoint "example.com").key =
          "example.com|www.example.com|A|192.0.2.1") ∧
      ∃ r, endpointToRecord (({ hostname := "app", type := "cname", canonicalName := "lb", status := "Disable" } :
          ListedRecord).toEndpoint "example.com").normalize "example.com" = .ok r ∧
        ((listed r).toEndpoint "example.com").key = "example.com|app.example.com|CNAME|lb.example.com" := by
  obtain ⟨hendpoints, hrows⟩ := record_codec "example.com" (by decide +kernel) (by decide)
  constructor
  · obtain ⟨r, hr, hkey, -⟩ := hendpoints
      { dnsName := "www.example.com", recordType := "A", targets := ["192.0.2.1"],
        zone := "example.com" } "192.0.2.1"
      (by decide +kernel) (by decide +kernel) (by decide) rfl ⟨by decide +kernel, by decide, by decide +kernel⟩
    refine ⟨r, hr, hkey.trans ?_⟩
    decide +kernel
  · obtain ⟨r, hr, hkey, -⟩ := hrows
      { hostname := "app", type := "cname", canonicalName := "lb", status := "Disable" }
      ⟨.inr (.inr (by decide +kernel)), ⟨by decide +kernel, by decide +kernel⟩,
        fun h => absurd h (by decide +kernel),
        fun h => absurd h (by decide +kernel), fun _ => ⟨by decide +kernel, by decide +kernel⟩⟩ true
    refine ⟨r, ?_, hkey.trans ?_⟩
    · rw [← hr]
      decide +kernel
    · decide +kernel

/-- Where the round trip ends: a row of type A whose address is a dot is listed with an empty target and read back
with none, an endpoint of another zone is read back under this one, and no name lies below the empty zone. -/
theorem record_codec_limits :
    (let row : ListedRecord := { hostname := "app", type := "A", ip := "." }
     let served := (row.toEndpoint "example.com").normalize
     DeviceName row.hostname ∧ ∃ r, endpointToRecord served "example.com" = .ok r ∧
        ((listed r).toEndpoint "example.com").equalRecord served = false) ∧
    (let e : Endpoint :=
        { dnsName := "app.example.com", recordType := "A", targets := ["192.0.2.1"], zone := "example.org" }
     MatchingTarget e.recordType "192.0.2.1" ∧ ∃ r, endpointToRecord e "example.com" = .ok r ∧
        ((listed r).toEndpoint "example.com").key ≠ e.key) ∧
    (let row : ListedRecord := { hostname := "app", type := "A", ip := "192.0.2.1" }
     normalizeDNSName "" = "" ∧ DeviceRow row ∧
        endpointToRecord (row.toEndpoint "").normalize "" = .error (.outsideZone "app" "")) := by
  refine ⟨⟨⟨by decide +kernel, by decide +kernel⟩,
    { hostname := "app", type := "A", status := "enable" }, ?_, ?_⟩,
    ⟨⟨by decide +kernel, by decide, by decide +kernel⟩,
      { hostname := "app", type := "A", ip := "192.0.2.1", status := "enable" }, ?_, ?_⟩,
    by decide +kernel, ⟨.inl (by decide +kernel), ⟨by decide +kernel, by decide +kernel⟩,
      fun _ => .inr (by decide +kernel),
      fun h => absurd h (by decide +kernel), fun h => absurd h (by decide +kernel)⟩, ?_⟩ <;>
    decide +kernel

end FortigateDns
