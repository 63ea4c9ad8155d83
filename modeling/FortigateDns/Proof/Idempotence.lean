import FortigateDns.Go.NetText
import FortigateDns.Proof.NormalForm

/-!
# Normalizing an endpoint twice

`NormalizeDNSName` drops one dot from the end of a name and trims no more behind it, and a target
that is no address before a dot is dropped may be one afterwards.
-/

namespace FortigateDns

open Go List

variable {s t : String} {ip : IP}
variable (e : Endpoint)

/-- The trimmed text ends in a dot that follows a dot or a space. -/
def Unsettled (s : String) : Prop := ∃ c, (c = '.' ∨ isSpace c = true) ∧ [c, '.'] <:+ (trimSpace s).toList

theorem trimRight_eq_self {l : List Char} (h : ∀ c ∈ l.getLast?, isSpace c = false) : trimRight l = l := by
  unfold trimRight
  rw [← head?_reverse] at h
  cases hrev : l.reverse with
  | nil => rw [dropWhile_nil, ← hrev, reverse_reverse]
  | cons c rest =>
    rw [hrev] at h
    rw [dropWhile_cons_of_neg (by rw [h c rfl]; decide), ← hrev, reverse_reverse]

theorem rightNormal_eq_self_iff (l : List Char) :
    rightNormal l = l ↔ ∀ c ∈ l.getLast?, c ≠ '.' ∧ isSpace c = false := by
  have hlength : (trimRight l).length ≤ l.length := by
    unfold trimRight
    have hdrop : (l.reverse.dropWhile isSpace).length ≤ l.reverse.length := length_dropWhile_le _ _
    rw [length_reverse] at hdrop ⊢
    exact hdrop
  constructor
  · intro hfixed c hc
    -- nothing is dropped, so the last character is none of those that are
    have hinit := (cutDot_initial (trimRight l)).length_le
    have hcut := congrArg List.length hfixed
    rw [rightNormal] at hcut
    have htrim : trimRight l = l := by
      unfold trimRight
      have hsuffix := dropWhile_suffix isSpace (l := l.reverse)
      have hsame : l.reverse.dropWhile isSpace = l.reverse := by
        refine hsuffix.eq_of_length ?_
        unfold trimRight at hlength hinit
        rw [length_reverse] at hlength hinit ⊢
        unfold trimRight at hcut
        omega
      rw [hsame, reverse_reverse]
    refine ⟨?_, ?_⟩
    · rintro rfl
      rw [rightNormal, htrim] at hfixed
      have hends : ['.'] <:+ l := singleton_suffix_iff_getLast?_eq_some.2 hc
      rw [cutDot, if_pos hends] at hfixed
      have hshort := congrArg List.length hfixed
      rw [length_dropLast] at hshort
      have hpos := hends.length_le
      rw [length_singleton] at hpos
      omega
    · have hlast : ∀ d ∈ (trimRight l).getLast?, isSpace d = false := by
        unfold trimRight
        rw [getLast?_reverse]
        exact head?_dropWhile_false _
      rw [htrim] at hlast
      exact hlast c hc
  · intro h
    rw [rightNormal, trimRight_eq_self fun c hc => (h c hc).2, cutDot, if_neg]
    intro hends
    exact (h '.' (singleton_suffix_iff_getLast?_eq_some.1 hends)).1 rfl

/-- A text that ends in a dot loses it, any other stays. -/
theorem normalizeDNSName_cases (s : String) :
    (∃ u : String, trimSpace s = u ++ "." ∧ normalizeDNSName s = toLower u) ∨
      ((trimSpace s).toList.getLast? ≠ some '.' ∧ normalizeDNSName s = toLower (trimSpace s)) := by
  have hdot : lowerChar '.' = '.' := (lowerChar_eq_iff (.inl rfl) '.').2 rfl
  have htext : (normalizeDNSName s).toList = cutDot ((trimSpace s).toList.map lowerChar) := by
    rw [toList_normalizeDNSName, trimSpace, String.toList_ofList]
  by_cases h : (trimSpace s).toList.getLast? = some '.'
  · left
    obtain ⟨p, hp⟩ := getLast?_eq_some_iff.1 h
    refine ⟨String.ofList p, String.toList_injective ?_, String.toList_injective ?_⟩
    · rw [hp, String.toList_append, String.toList_ofList (l := p)]
      rfl
    · rw [htext, hp, map_append, map_singleton, hdot, toLower, String.toList_ofList, String.toList_ofList, cutDot,
        if_pos (suffix_append _ _), dropLast_concat]
  · right
    refine ⟨h, String.toList_injective ?_⟩
    rw [htext, toLower, String.toList_ofList, cutDot, if_neg]
    rw [singleton_suffix_iff_getLast?_eq_some, getLast?_map, Option.map_eq_some_iff]
    rintro ⟨c, hc, hlower⟩
    rw [lowerChar_eq_iff (.inl rfl)] at hlower
    exact h (hlower ▸ hc)

theorem getLast?_toLower (u : String) : (toLower u).toList.getLast? = u.toList.getLast?.map lowerChar := by
  rw [toLower, String.toList_ofList, getLast?_map]

/-- **A name is stable unless the dot it loses follows a dot or a space.** -/
theorem last_of_normalized (s : String) :
    (∀ c ∈ (normalizeDNSName s).toList.getLast?, c ≠ '.' ∧ isSpace c = false) ↔ ¬ Unsettled s := by
  rcases normalizeDNSName_cases s with ⟨u, hu, hname⟩ | ⟨hlast, hname⟩
  · have htext : (trimSpace s).toList = u.toList ++ ['.'] := by
      rw [hu, String.toList_append]
      rfl
    rw [hname, getLast?_toLower]
    constructor
    · rintro h ⟨c, hc, front, hfront⟩
      have hu : u.toList = front ++ [c] := by
        rw [htext] at hfront
        have hcut := congrArg List.dropLast hfront
        rw [dropLast_concat, append_cons, dropLast_concat] at hcut
        exact hcut.symm
      have hc' := h (lowerChar c) (by rw [hu, getLast?_concat]; rfl)
      rw [isSpace_lowerChar, ne_eq, lowerChar_eq_iff (.inl rfl)] at hc'
      rcases hc with rfl | hspace
      · exact hc'.1 rfl
      · rw [hc'.2] at hspace
        cases hspace
    · intro h c hc
      obtain ⟨d, hd, rfl⟩ := Option.map_eq_some_iff.1 hc
      obtain ⟨front, hfront⟩ := getLast?_eq_some_iff.1 hd
      rw [isSpace_lowerChar, ne_eq, lowerChar_eq_iff (.inl rfl)]
      by_contra hbad
      refine h ⟨d, ?_, front, ?_⟩
      · by_cases hdot : d = '.'
        · exact .inl hdot
        · refine .inr ?_
          cases hspace : isSpace d with
          | true => rfl
          | false => exact absurd ⟨hdot, hspace⟩ hbad
      · rw [htext, hfront, append_assoc]
        rfl
  · rw [hname, getLast?_toLower]
    refine ⟨?_, fun _ c hc => ?_⟩
    · rintro - ⟨c, -, front, hfront⟩
      refine hlast ?_
      rw [← hfront, append_cons, getLast?_concat]
    · obtain ⟨d, hd, rfl⟩ := Option.map_eq_some_iff.1 hc
      rw [isSpace_lowerChar, ne_eq, lowerChar_eq_iff (.inl rfl)]
      refine ⟨fun hdot => hlast (hdot ▸ hd), ?_⟩
      rw [trimSpace, String.toList_ofList] at hd
      exact trimBoth_getLast? s.toList d hd

/-- A name is stable unless the dot it loses follows a dot or a space. -/
theorem normalizeDNSName_idem_iff (s : String) :
    normalizeDNSName (normalizeDNSName s) = normalizeDNSName s ↔ ¬ Unsettled s := by
  rw [← last_of_normalized, ← rightNormal_eq_self_iff, ← normalizeDNSName_twice, String.toList_inj]

theorem trimSpace_of_settled (h : ¬ Unsettled s) : trimSpace (normalizeDNSName s) = normalizeDNSName s := by
  refine String.toList_injective ?_
  rw [trimSpace, String.toList_ofList]
  exact trimBoth_eq_self (normalized_normalizeDNSName s).head fun c hc => ((last_of_normalized s).2 h c hc).2

/-- **A target that a second normalization leaves alone**: an address, or a stable name that is no address
in another form once its dot is dropped. -/
def StableTarget (target : String) : Prop :=
  (parseIP (trimSpace target)).isSome = true ∨
    ¬ Unsettled target ∧
      ∀ u ip, trimSpace target = u ++ "." → parseIP u = some ip → toLower u = ip.toText

theorem normalizeDNSName_trimSpace (s : String) : normalizeDNSName (trimSpace s) = normalizeDNSName s := by
  unfold normalizeDNSName
  rw [trimSpace_trimSpace]

theorem normalizeTarget_some (h : parseIP (trimSpace t) = some ip) : normalizeTarget t = ip.toText := by
  unfold normalizeTarget
  rw [h]

theorem normalizeTarget_none (h : parseIP (trimSpace t) = none) : normalizeTarget t = normalizeDNSName t := by
  unfold normalizeTarget
  rw [h]
  exact normalizeDNSName_trimSpace t

theorem trimSpace_of_address (h : parseIP s = some ip) : trimSpace s = s := by
  have hplain := (parseIP_text h).1
  refine String.toList_injective ?_
  rw [trimSpace, String.toList_ofList]
  exact trimBoth_eq_self (fun c hc => hplain c (mem_of_head? hc)) (fun c hc => hplain c (mem_of_getLast? hc))

theorem settled_of_address (h : parseIP s = some ip) : ¬ Unsettled s := by
  rintro ⟨c, -, hends⟩
  rw [trimSpace_of_address h] at hends
  refine (parseIP_text h).2 ?_
  obtain ⟨front, hfront⟩ := hends
  rw [← hfront, append_cons, getLast?_concat]

/-- An address is read the same when it is normalized as a name. -/
theorem parseIP_normalizeDNSName (h : parseIP s = some ip) : parseIP (normalizeDNSName s) = some ip := by
  have htrim := trimSpace_of_address h
  rcases normalizeDNSName_cases s with ⟨u, hu, -⟩ | ⟨-, hname⟩
  · refine absurd ?_ (parseIP_text h).2
    rw [← htrim, hu, String.toList_append]
    exact getLast?_concat
  · rw [hname, parseIP_toLower, htrim, h]

/-- The text of an address is stable. -/
theorem normalizeTarget_toText (ip : IP) : normalizeTarget ip.toText = ip.toText := by
  refine normalizeTarget_some ?_
  rw [trimSpace_of_address (parseIP_toText ip)]
  exact parseIP_toText ip

/-- A target is stable if it is an address, or if it is a stable name that does not become an
address in a form other than the canonical one. -/
theorem normalizeTarget_idem_iff (t : String) :
    normalizeTarget (normalizeTarget t) = normalizeTarget t ↔ StableTarget t := by
  cases hip : parseIP (trimSpace t) with
  | some ip =>
    rw [normalizeTarget_some hip]
    exact ⟨fun _ => .inl (by rw [hip]; rfl), fun _ => normalizeTarget_toText ip⟩
  | none =>
    have hstable : StableTarget t ↔ ¬ Unsettled t ∧
        ∀ u ip, trimSpace t = u ++ "." → parseIP u = some ip → toLower u = ip.toText := by
      unfold StableTarget
      rw [hip]
      simp
    rw [hstable, normalizeTarget_none hip]
    have hlast := last_of_normalized t
    by_cases hsettled : Unsettled t
    · refine ⟨fun hfixed => absurd hfixed ?_, fun h => absurd hsettled h.1⟩
      cases hagain : parseIP (trimSpace (normalizeDNSName t)) with
      | none =>
        rw [normalizeTarget_none hagain]
        exact mt (normalizeDNSName_idem_iff t).1 (not_not.2 hsettled)
      | some ip =>
        -- the text of an address ends neither in a dot nor in a space
        rw [normalizeTarget_some hagain]
        intro heq
        obtain ⟨hspace, hdot⟩ := toText_plain ip
        rw [← heq] at hlast
        refine hlast.1 (fun c hc => ⟨?_, hspace c (mem_of_getLast? hc)⟩) hsettled
        rintro rfl
        exact hdot hc
    · have htrim := trimSpace_of_settled hsettled
      have hfixed : parseIP (normalizeDNSName t) = none →
        normalizeTarget (normalizeDNSName t) = normalizeDNSName t := by
        intro hnone
        rw [normalizeTarget_none (by rw [htrim]; exact hnone)]
        exact (normalizeDNSName_idem_iff t).2 hsettled
      rcases normalizeDNSName_cases t with ⟨u, hu, hname⟩ | ⟨hdot, hname⟩
      · have hparse : parseIP (normalizeDNSName t) = parseIP u := by rw [hname, parseIP_toLower]
        cases haddress : parseIP u with
        | none =>
          rw [haddress] at hparse
          refine ⟨fun _ => ⟨hsettled, fun v ip hv hip => ?_⟩, fun _ => hfixed hparse⟩
          obtain rfl : u = v := String.append_left_inj "." |>.1 (hu.symm.trans hv)
          rw [haddress] at hip
          cases hip
        | some ip =>
          rw [haddress] at hparse
          rw [normalizeTarget_some (by rw [htrim]; exact hparse), hname]
          refine ⟨fun heq => ⟨hsettled, fun v ip' hv hip' => ?_⟩, fun h => (h.2 u ip hu haddress).symm⟩
          obtain rfl : u = v := String.append_left_inj "." |>.1 (hu.symm.trans hv)
          rw [haddress] at hip'
          cases hip'
          exact heq.symm
      · have hparse : parseIP (normalizeDNSName t) = none := by rw [hname, parseIP_toLower, hip]
        refine ⟨fun _ => ⟨hsettled, fun u ip hu _ => absurd ?_ hdot⟩, fun _ => hfixed hparse⟩
        rw [hu, String.toList_append]
        exact getLast?_concat

/-- If one property implies another and holds as often, they agree. -/
theorem of_countP_eq {α : Type} {p q : α → Bool} (hpq : ∀ a, p a = true → q a = true) {l : List α}
    (h : l.countP p = l.countP q) : ∀ a ∈ l, q a = true → p a = true := by
  induction l with
  | nil => exact fun a ha => by cases ha
  | cons b l ih =>
    have hle : l.countP p ≤ l.countP q := countP_mono_left fun a _ => hpq a
    rw [countP_cons, countP_cons] at h
    have hb := hpq b
    have hsame : l.countP p = l.countP q ∧ (q b = true → p b = true) := by
      cases hp : p b <;> cases hq : q b <;> simp_all
    intro a ha hqa
    rcases mem_cons.1 ha with rfl | ha
    · exact hsame.2 hqa
    · exact ih hsame.1 a ha hqa

/-- The length of a target that is no address goes down. -/
theorem normalizeTarget_shorter (hnone : parseIP (trimSpace (normalizeTarget t)) = none)
    (hmoves : normalizeTarget (normalizeTarget t) ≠ normalizeTarget t) :
    (normalizeTarget (normalizeTarget t)).toList.length < (normalizeTarget t).toList.length := by
  have hname : normalizeTarget t = normalizeDNSName t := by
    refine normalizeTarget_none ?_
    cases hip : parseIP (trimSpace t) with
    | none => rfl
    | some ip =>
      rw [normalizeTarget_some hip] at hmoves
      exact absurd (normalizeTarget_toText ip) hmoves
  rw [normalizeTarget_none hnone] at hmoves ⊢
  rw [hname] at hmoves ⊢
  have htwice := normalizeDNSName_twice t
  have hinit : rightNormal (normalizeDNSName t).toList <+: (normalizeDNSName t).toList := by
    refine (cutDot_initial _).trans ?_
    unfold trimRight
    have hsuffix := dropWhile_suffix isSpace (l := (normalizeDNSName t).toList.reverse)
    exact reverse_suffix.1 (by rwa [reverse_reverse])
  rw [← htwice] at hinit
  refine lt_of_le_of_ne hinit.length_le fun heq => hmoves ?_
  exact String.toList_injective (hinit.eq_of_length heq)

/-- **A function that permutes a list leaves each element alone** if an element it moves goes down in size
or is moved once only: no cycle can go down. -/
theorem fixed_of_perm {α : Type} [DecidableEq α] {f : α → α} (size : α → Nat) {l : List α}
    (hperm : (l.map f).Perm l) (hdescends : ∀ a ∈ l, f a ≠ a → f (f a) = f a ∨ size (f a) < size a) :
    ∀ a ∈ l, f a = a := by
  -- as many elements are fixed as have a fixed image, so the image of an element that moves moves
  have hcount := hperm.countP_eq fun a => decide (f a = a)
  rw [countP_map] at hcount
  have hfixed : ∀ a, decide (f a = a) = true → ((fun a => decide (f a = a)) ∘ f) a = true := by
    intro a ha
    rw [decide_eq_true_eq] at ha
    rw [Function.comp_apply, decide_eq_true_eq, ha, ha]
  have hstays : ∀ a ∈ l, f (f a) = f a → f a = a := fun a ha hagain =>
    of_decide_eq_true (of_countP_eq hfixed hcount.symm a ha (decide_eq_true hagain))
  have hall : ∀ n, ∀ a ∈ l, size a < n → f a = a := by
    intro n
    induction n with
    | zero => exact fun a _ hn => absurd hn (Nat.not_lt_zero _)
    | succ n ih =>
      intro a ha hn
      by_contra hmoves
      rcases hdescends a ha hmoves with hagain | hsmaller
      · exact hmoves (hstays a ha hagain)
      · have himage : f a ∈ l := hperm.mem_iff.1 (mem_map_of_mem ha)
        exact hmoves (hstays a ha (ih (f a) himage (by omega)))
  exact fun a ha => hall _ a ha (Nat.lt_succ_self _)

theorem sortStrings_map_idem {f : String → String} (size : String → Nat) {l : List String}
    (hdescends : ∀ t ∈ l, f (f t) ≠ f t → f (f (f t)) = f (f t) ∨ size (f (f t)) < size (f t)) :
    sortStrings ((sortStrings (l.map f)).map f) = sortStrings (l.map f) ↔ ∀ t ∈ l, f (f t) = f t := by
  have hmem : ∀ s, s ∈ sortStrings (l.map f) ↔ ∃ t ∈ l, f t = s := by
    intro s
    rw [sortStrings, mem_insertionSort, mem_map]
  constructor
  · intro hsorted t ht
    have hperm : ((sortStrings (l.map f)).map f).Perm (sortStrings (l.map f)) := by
      have hsort : (sortStrings ((sortStrings (l.map f)).map f)).Perm ((sortStrings (l.map f)).map f) :=
        perm_insertionSort _ _
      rw [hsorted] at hsort
      exact hsort.symm
    refine fixed_of_perm size hperm (fun s hs => ?_) (f t) ((hmem _).2 ⟨t, ht, rfl⟩)
    obtain ⟨t, ht, rfl⟩ := (hmem s).1 hs
    exact hdescends t ht
  · intro h
    have hmap : (sortStrings (l.map f)).map f = sortStrings (l.map f) := by
      refine (map_congr_left fun s hs => ?_).trans (map_id _)
      obtain ⟨t, ht, rfl⟩ := (hmem s).1 hs
      exact h t ht
    rw [hmap]
    exact (pairwise_sortStrings _).insertionSort_eq

/-- **A sorted list of targets is stable if and only if each of its targets is.** -/
theorem sorted_idem_iff (targets : List String) :
    sortStrings ((sortStrings (targets.map normalizeTarget)).map normalizeTarget) =
        sortStrings (targets.map normalizeTarget) ↔
      ∀ t ∈ targets, StableTarget t := by
  have hiff : (∀ t ∈ targets, StableTarget t) ↔
      ∀ t ∈ targets, normalizeTarget (normalizeTarget t) = normalizeTarget t :=
    forall₂_congr fun t _ => (normalizeTarget_idem_iff t).symm
  rw [hiff]
  refine sortStrings_map_idem (fun s => s.toList.length) fun t _ hmoves => ?_
  cases hip : parseIP (trimSpace (normalizeTarget t)) with
  | some ip =>
    left
    rw [normalizeTarget_some hip]
    exact normalizeTarget_toText ip
  | none => exact .inr (normalizeTarget_shorter hip hmoves)

/-- **An endpoint that a second normalization leaves alone.** -/
structure Endpoint.Stable (e : Endpoint) : Prop where
  dnsName : ¬ Unsettled e.dnsName
  zone : ¬ Unsettled e.zone
  targets : ∀ t ∈ e.targets, StableTarget t

theorem normalize_dnsName : e.normalize.dnsName = normalizeDNSName e.dnsName := by
  dsimp only [Endpoint.normalize]

theorem normalize_zone : e.normalize.zone = normalizeDNSName e.zone := by
  dsimp only [Endpoint.normalize]

theorem normalize_recordType : e.normalize.recordType = toUpper (trimSpace e.recordType) := by
  dsimp only [Endpoint.normalize]

theorem normalize_ttl : e.normalize.ttl = e.ttl := by
  dsimp only [Endpoint.normalize]

theorem normalize_disabled : e.normalize.disabled = e.disabled := by
  dsimp only [Endpoint.normalize]

theorem normalize_targets : e.normalize.targets = sortStrings (e.targets.map normalizeTarget) := by
  show (if 0 < e.targets.length then sortStrings (e.targets.map normalizeTarget) else e.targets) = _
  split_ifs with h
  · rfl
  · have hnil : e.targets = [] := eq_nil_of_length_eq_zero (by omega)
    rw [hnil]
    rfl

/-- A normalized endpoint differs from the endpoint in its name, type, zone and targets only. -/
theorem normalize_eq :
    e.normalize = { e with
      dnsName := e.normalize.dnsName, recordType := e.normalize.recordType, zone := e.normalize.zone,
      targets := e.normalize.targets } := by
  dsimp only [Endpoint.normalize]

theorem normalize_normalize_iff : e.normalize.normalize = e.normalize ↔ e.Stable := by
  have hname : e.normalize.normalize.dnsName = e.normalize.dnsName ↔ ¬ Unsettled e.dnsName := by
    rw [normalize_dnsName, normalize_dnsName]
    exact normalizeDNSName_idem_iff e.dnsName
  have hzone : e.normalize.normalize.zone = e.normalize.zone ↔ ¬ Unsettled e.zone := by
    rw [normalize_zone, normalize_zone]
    exact normalizeDNSName_idem_iff e.zone
  have htargets : e.normalize.normalize.targets = e.normalize.targets ↔ ∀ t ∈ e.targets, StableTarget t := by
    rw [normalize_targets e.normalize, normalize_targets e]
    exact sorted_idem_iff e.targets
  constructor
  · intro h
    exact ⟨hname.1 (congrArg Endpoint.dnsName h), hzone.1 (congrArg Endpoint.zone h),
      htargets.1 (congrArg Endpoint.targets h)⟩
  · intro h
    have htype : e.normalize.normalize.recordType = e.normalize.recordType := by
      rw [normalize_recordType, normalize_recordType, trimSpace_toUpper, trimSpace_trimSpace, toUpper_toUpper]
    rw [normalize_eq e.normalize, hname.2 h.dnsName, hzone.2 h.zone, htargets.2 h.targets, htype]

/-- **The endpoints on which normalization is idempotent**, and on which every key and comparison is the
same before and after it. -/
theorem normalize_stable_iff (e : Endpoint) :
    (e.normalize.normalize = e.normalize ∧ e.normalize.key = e.key ∧ e.normalize.logicalKey = e.logicalKey ∧
      e.normalize.mutationGroupKey = e.mutationGroupKey ∧
      ∀ other, e.normalize.equalRecord other = e.equalRecord other ∧
        other.equalRecord e.normalize = other.equalRecord e) ↔
    e.Stable := by
  rw [← normalize_normalize_iff]
  refine ⟨fun h => h.1, fun h => ⟨h, ?_, ?_, ?_, fun other => ⟨?_, ?_⟩⟩⟩
  · unfold Endpoint.key
    rw [h]
  · unfold Endpoint.logicalKey
    rw [h]
  · unfold Endpoint.mutationGroupKey
    rw [h]
  · unfold Endpoint.equalRecord
    rw [h]
  · unfold Endpoint.equalRecord
    rw [h]

/-- Two dots at the end: the second normalization drops the other one. -/
theorem normalize_two_dots :
    let e : Endpoint :=
      { dnsName := "a.example.com..", recordType := "A", zone := "example.com", targets := ["192.0.2.1"] }
    e.normalize.normalize ≠ e.normalize ∧ e.normalize.key ≠ e.key ∧ e.normalize.logicalKey ≠ e.logicalKey ∧
      e.normalize.mutationGroupKey ≠ e.mutationGroupKey ∧ e.normalize.equalRecord e = false := by
  decide +kernel

end FortigateDns
