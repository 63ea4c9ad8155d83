import FortigateDns.Go.Subdomain
import FortigateDns.Spec.ChangePlan

/-!
# The names of plan objects

`PersistCurrent` names a plan after its target and its hash, and adds the time when the name is
taken. The name of a target may have 253 characters, that of a plan is cut.
-/

namespace FortigateDns

open Go List Bool

/-- The identifier of a document: 64 digits. -/
theorem Document.id_digits {dr : DocumentRuntime} {d : Document} {hash : String} (h : d.id dr = .ok hash) :
    hash.toList.length = 64 ∧ ∀ c ∈ hash.toList, isLowerAlnum c = true := by
  unfold Document.id at h
  cases hjson : d.canonicalJSON dr with
  | error e => rw [hjson] at h; cases h
  | ok text =>
    rw [hjson] at h
    cases h
    rw [String.toList_ofList]
    exact ⟨length_sha256Hex text, fun c hc =>
      (show ∀ c ∈ "0123456789abcdef".toList, isLowerAlnum c = true by decide) c (sha256Hex_mem hc)⟩

theorem plainName_of_text {l : List Char} (h : NameText l) : PlainName l := by
  obtain ⟨z, hz, hlast⟩ := h.last
  refine ⟨h.chars, fun hdot => ?_⟩
  rw [hz] at hdot
  cases hdot
  exact (ne_of_alnum hlast).2 rfl

/-- Nothing of a name is replaced or trimmed. -/
theorem labelValue_name {s : String} (h : NameText s.toList) : labelValue s = s := by
  have hplain := plainName_of_text h
  have hkeep : ∀ c ∈ s.toList, 'a' ≤ c ∧ c ≤ 'z' ∨ '0' ≤ c ∧ c ≤ '9' ∨ c = '-' ∨ c = '.' := by
    intro c hc
    have := h.chars c hc
    simp only [isNameChar, isLowerAlnum, or_eq_true, and_eq_true, decide_eq_true_eq, beq_iff_eq] at this
    tauto
  have hmap : (s.toList.map fun c => if 'a' ≤ c ∧ c ≤ 'z' ∨ '0' ≤ c ∧ c ≤ '9' ∨ c = '-' ∨
    c = '.' then c else '-') =
      s.toList := by
    rw [map_congr_left fun c hc => if_pos (hkeep c hc), map_id']
  have htrim : trimBoth (fun c => c = '-' ∨ c = '.') s.toList = s.toList := by
    obtain ⟨a, ha, hfirst⟩ := h.first
    obtain ⟨z, hz, hlast⟩ := h.last
    apply trimBoth_eq_self
    · intro c hc
      rw [ha] at hc
      cases hc
      simpa using ne_of_alnum hfirst
    · intro c hc
      rw [hz] at hc
      cases hc
      simpa using ne_of_alnum hlast
  unfold labelValue
  dsimp only
  rw [trimSpace_plain hplain, toLower_plain hplain, hmap, htrim, if_neg h.ne_nil, String.ofList_toList]

/-- A name is a label value if it is short enough. -/
theorem isValidLabelValue_name {s : String} (h : NameText s.toList) :
    isValidLabelValue s = true ↔ s.toList.length ≤ 63 := by
  obtain ⟨a, ha, hfirst⟩ := h.first
  obtain ⟨z, hz, hlast⟩ := h.last
  have hchars : (s.toList.all fun c => isAlnum c || c == '-' || c == '_' || c == '.') = true := by
    rw [all_eq_true]
    intro c hc
    have := h.chars c hc
    simp only [isNameChar, or_eq_true] at this
    simp only [isAlnum, or_eq_true]
    tauto
  have hne : s.toList.isEmpty = false := by simpa using h.ne_nil
  unfold isValidLabelValue
  rw [hne, hchars, ha, hz]
  simp [isAlnum, hfirst, hlast]

section Names

variable {name hash : String} (hname : NameText name.toList)
  (hlength : hash.toList.length = 64) (hdigits : ∀ c ∈ hash.toList, isLowerAlnum c = true)

/-- The part of the name that stands for the target. -/
def planLabel (name : String) : List Char :=
  if 45 < name.toList.length then trimBoth (fun c => c = '-') (name.toList.take 45) else name.toList

include hname in
theorem toList_planObjectName :
    (planObjectName name hash).toList = planLabel name ++ '-' :: hash.toList.take 12 := by
  unfold planObjectName planLabel
  rw [labelValue_name hname, String.toList_ofList]

theorem length_trimBoth_le (p : Char → Bool) (l : List Char) : (trimBoth p l).length ≤ l.length := by
  unfold trimBoth
  rw [length_reverse]
  have hback := (dropWhile_suffix p (l := (l.dropWhile p).reverse)).length_le
  have hfront := (dropWhile_suffix p (l := l)).length_le
  rw [length_reverse] at hback
  exact hback.trans hfront

theorem length_planLabel_le (name : String) : (planLabel name).length ≤ 45 := by
  unfold planLabel
  split
  · exact (length_trimBoth_le _ _).trans (length_take_le _ _)
  · omega

/-- The condition on a name: it is not cut, or not behind a dot. -/
def CutsNoDot (name : String) : Prop := ¬ (45 < name.toList.length ∧ name.toList[44]? = some '.')

theorem getLast?_take_45 {l : List Char} (h : 45 < l.length) : (l.take 45).getLast? = l[44]? := by
  rw [List.getLast?_eq_getElem?, length_take, Nat.min_eq_left (by omega), getElem?_take_of_lt (by decide)]

include hname in
theorem planLabel_name (hcut : CutsNoDot name) : NameText (planLabel name) := by
  unfold planLabel
  split
  case isTrue hlong =>
    refine hname.trim_take (by decide) fun hdot => hcut ⟨hlong, ?_⟩
    rw [← getLast?_take_45 hlong]
    exact hdot
  case isFalse => exact hname

include hname in
/-- Behind a dot nothing is trimmed. -/
theorem planLabel_dot (hlong : 45 < name.toList.length) (hdot : name.toList[44]? = some '.') :
    planLabel name = name.toList.take 44 ++ ['.'] := by
  obtain ⟨a, ha, hfirst⟩ := hname.first
  have hlast : (name.toList.take 45).getLast? = some '.' := (getLast?_take_45 hlong).trans hdot
  have htake : name.toList.take 45 = name.toList.take 44 ++ ['.'] := by
    rw [take_add_one, hdot]
    rfl
  unfold planLabel
  rw [if_pos hlong, trimBoth_eq_self, htake]
  · intro c hc
    rw [head?_take, if_neg (by decide), ha] at hc
    cases hc
    simpa using (ne_of_alnum hfirst).1
  · intro c hc
    rw [hlast] at hc
    cases hc
    decide

include hlength hdigits in
theorem hash_take {n : Nat} (hn : 0 < n) :
    hash.toList.take n ≠ [] ∧ ∀ c ∈ hash.toList.take n, isLowerAlnum c = true := by
  refine ⟨fun hnil => ?_, fun c hc => hdigits c (mem_of_mem_take hc)⟩
  have := congrArg List.length hnil
  rw [length_take, length_nil, hlength] at this
  omega

include hname hlength in
theorem length_planObjectName : (planObjectName name hash).toList.length = (planLabel name).length + 13 := by
  rw [toList_planObjectName hname, length_append, length_cons, length_take, hlength]
  omega

include hname hlength in
theorem length_planObjectName_le : (planObjectName name hash).toList.length ≤ 58 := by
  have := length_planLabel_le name
  rw [length_planObjectName hname hlength]
  omega

include hname hlength hdigits in
theorem planObjectName_text (hcut : CutsNoDot name) : NameText (planObjectName name hash).toList := by
  obtain ⟨hne, halnum⟩ := hash_take hlength hdigits (n := 12) (by decide)
  rw [toList_planObjectName hname]
  exact (planLabel_name hname hcut).append_hyphen halnum hne

include hname hlength hdigits in
/-- **The name of a plan is valid unless it is cut behind a dot.** -/
theorem planObjectName_iff : isDNS1123Subdomain (planObjectName name hash) = true ↔ CutsNoDot name := by
  rw [isDNS1123Subdomain_iff]
  constructor
  · rintro ⟨-, htext⟩ ⟨hlong, hdot⟩
    rw [toList_planObjectName hname, planLabel_dot hname hlong hdot, append_assoc] at htext
    exact not_nameText_dot_hyphen _ _ htext
  · intro hcut
    have := length_planObjectName_le hname hlength
    exact ⟨by omega, planObjectName_text hname hlength hdigits hcut⟩

/-- What is left of the name before the time. -/
def recurringBase (base suffix : List Char) : List Char :=
  if 63 < base.length + 1 + suffix.length then
    trimBoth (fun c => c = '-') (base.take (63 - 1 - suffix.length)) else base

theorem toList_recurringPlanObjectName (name hash : String) (now : Nat) :
    (recurringPlanObjectName name hash now).toList =
      recurringBase (planObjectName name hash).toList (formatInt36 now) ++ '-' :: formatInt36 now := by
  unfold recurringPlanObjectName recurringBase
  rw [String.toList_ofList]

include hname hlength hdigits in
/-- The cut is inside the hash, so nothing is trimmed. -/
theorem recurringBase_text (hcut : CutsNoDot name) {suffix : List Char} (hsuffix : suffix.length ≤ 13) :
    NameText (recurringBase (planObjectName name hash).toList suffix) ∧
      (63 < (planObjectName name hash).toList.length + 1 + suffix.length →
        (recurringBase (planObjectName name hash).toList suffix).length = 62 - suffix.length) := by
  have hlabel := length_planLabel_le name
  have htotal := length_planObjectName hname hlength
  unfold recurringBase
  by_cases hlong : 63 < (planObjectName name hash).toList.length + 1 + suffix.length
  · -- at least one digit of the hash is left: 62 - 13 is more than 45 + 1
    obtain ⟨k, hk⟩ : ∃ k, 63 - 1 - suffix.length = (planLabel name).length + 1 + (k + 1) :=
      ⟨61 - suffix.length - (planLabel name).length - 1, by omega⟩
    have htake : (planObjectName name hash).toList.take (63 - 1 - suffix.length) =
        planLabel name ++ '-' :: (hash.toList.take 12).take (k + 1) := by
      rw [toList_planObjectName hname, hk, Nat.add_assoc, Nat.add_comm 1, take_length_add_append, take_succ_cons]
    have hdigits' : (hash.toList.take 12).take (k + 1) ≠ [] ∧
        ∀ c ∈ (hash.toList.take 12).take (k + 1), isLowerAlnum c = true := by
      rw [take_take]
      exact hash_take hlength hdigits (by omega)
    have htext := (planLabel_name hname hcut).append_hyphen hdigits'.2 hdigits'.1
    rw [← htake] at htext
    have htrim : trimBoth (fun c => c = '-') ((planObjectName name hash).toList.take (63 - 1 - suffix.length)) =
        (planObjectName name hash).toList.take (63 - 1 - suffix.length) := by
      obtain ⟨a, ha, hfirst⟩ := htext.first
      obtain ⟨z, hz, hlast⟩ := htext.last
      apply trimBoth_eq_self
      · intro c hc
        rw [ha] at hc
        cases hc
        simpa using (ne_of_alnum hfirst).1
      · intro c hc
        rw [hz] at hc
        cases hc
        simpa using (ne_of_alnum hlast).1
    rw [if_pos hlong, htrim]
    refine ⟨htext, fun _ => ?_⟩
    rw [length_take]
    omega
  · rw [if_neg hlong]
    exact ⟨planObjectName_text hname hlength hdigits hcut, fun h => absurd h hlong⟩

include hname hlength hdigits in
/-- **The name with the time is valid if the name without it is**, and another one. -/
theorem recurringPlanObjectName_valid (hcut : CutsNoDot name) {now : Nat} (hnow : now < 2 ^ 63) :
    isDNS1123Subdomain (recurringPlanObjectName name hash now) = true ∧
      (recurringPlanObjectName name hash now).toList.length ≤ 63 ∧
      recurringPlanObjectName name hash now ≠ planObjectName name hash := by
  have hshort : (formatInt36 now).length ≤ 13 :=
    length_formatInt36_le (by decide) (hnow.trans (by decide))
  obtain ⟨htext, hcutLength⟩ := recurringBase_text hname hlength hdigits hcut hshort
  have hplain := length_planObjectName_le hname hlength
  have htotal : (recurringPlanObjectName name hash now).toList.length =
      (recurringBase (planObjectName name hash).toList (formatInt36 now)).length + 1 +
        (formatInt36 now).length := by
    rw [toList_recurringPlanObjectName, length_append, length_cons]
    omega
  -- cut, the name has 63 characters; uncut, it is longer than the plain name
  have hsize : (recurringPlanObjectName name hash now).toList.length ≤ 63 ∧
      (planObjectName name hash).toList.length < (recurringPlanObjectName name hash now).toList.length := by
    by_cases hlong : 63 < (planObjectName name hash).toList.length + 1 + (formatInt36 now).length
    · have := hcutLength hlong
      omega
    · have huncut : recurringBase (planObjectName name hash).toList (formatInt36 now) =
        (planObjectName name hash).toList :=
        if_neg hlong
      rw [huncut] at htotal
      omega
  refine ⟨?_, hsize.1, fun heq => ?_⟩
  · rw [isDNS1123Subdomain_iff, toList_recurringPlanObjectName]
    refine ⟨?_, htext.append_hyphen (formatInt36_alnum now) (formatInt36_ne_nil now)⟩
    rw [← toList_recurringPlanObjectName]
    omega
  · rw [heq] at hsize
    omega

end Names

/-- What the API server asks of the objects that `PersistCurrent` creates. -/
structure PersistedNames (name hash : String) (now : Nat) : Prop where
  plain : isDNS1123Subdomain (planObjectName name hash) = true ∧ (planObjectName name hash).toList.length ≤ 63
  recurring : isDNS1123Subdomain (recurringPlanObjectName name hash now) = true ∧
    (recurringPlanObjectName name hash now).toList.length ≤ 63
  distinct : recurringPlanObjectName name hash now ≠ planObjectName name hash
  label : isValidLabelValue (labelValue name) = true

/-- **The objects of a plan can be created if and only if** the name of the target is short enough
for a label value and is not cut behind a dot. -/
theorem persisted_names_iff (dr : DocumentRuntime) (d : Document) (hash : String) (hid : d.id dr = .ok hash)
    (hname : isDNS1123Subdomain d.target.name = true) (now : Nat) (hnow : now < 2 ^ 63) :
    PersistedNames d.target.name hash now ↔
      d.target.name.toList.length ≤ 63 ∧ ¬
        (45 < d.target.name.toList.length ∧ d.target.name.toList[44]? = some '.') := by
  obtain ⟨hlength, hdigits⟩ := Document.id_digits hid
  have htext : NameText d.target.name.toList := ((isDNS1123Subdomain_iff _).1 hname).2
  have hlabel : isValidLabelValue (labelValue d.target.name) = true ↔ d.target.name.toList.length ≤ 63 := by
    rw [labelValue_name htext, isValidLabelValue_name htext]
  constructor
  · intro h
    exact ⟨hlabel.1 h.label, (planObjectName_iff htext hlength hdigits).1 h.plain.1⟩
  · rintro ⟨hshort, hcut⟩
    obtain ⟨hvalid, hle, hdistinct⟩ := recurringPlanObjectName_valid htext hlength hdigits hcut hnow
    have hplain := length_planObjectName_le htext hlength
    exact ⟨⟨(planObjectName_iff htext hlength hdigits).2 hcut, by omega⟩, ⟨hvalid, hle⟩, hdistinct,
      hlabel.2 hshort⟩

/-- A plan without operations for a target. -/
def emptyPlan (name : String) : Document := newDocument { name := name, zone := "example.com" } {} []

theorem emptyPlan_id (name : String) (h : ((emptyPlan name).canonicalJSON .plain).isOk = true) :
    ∃ hash, (emptyPlan name).id .plain = .ok hash := by
  unfold Document.id
  cases hjson : (emptyPlan name).canonicalJSON .plain with
  | error e => rw [hjson] at h; cases h
  | ok text => exact ⟨String.ofList (sha256Hex text), rfl⟩

/-- A target whose name has a dot at the 45th place, and one with 64 characters. -/
def dottedName : String := String.ofList (List.replicate 44 'a' ++ ['.', 'b'])
def longName : String := String.ofList (List.replicate 64 'a')

theorem persisted_names_invalid :
    (isDNS1123Subdomain dottedName = true ∧ ∃ hash, (emptyPlan dottedName).id .plain = .ok hash ∧
      ¬ isDNS1123Subdomain (planObjectName dottedName hash) = true) ∧
    (isDNS1123Subdomain longName = true ∧ (∃ hash, (emptyPlan longName).id .plain = .ok hash) ∧
      ¬ isValidLabelValue (labelValue longName) = true) := by
  refine ⟨⟨by decide +kernel, ?_⟩, by decide +kernel,
    emptyPlan_id longName (by decide +kernel), by decide +kernel⟩
  obtain ⟨hash, hid⟩ := emptyPlan_id dottedName (by decide +kernel)
  obtain ⟨hlength, hdigits⟩ := Document.id_digits hid
  have htext : NameText dottedName.toList := ((isDNS1123Subdomain_iff _).1 (by decide +kernel)).2
  refine ⟨hash, hid, fun hvalid => (planObjectName_iff htext hlength hdigits).1 hvalid ?_⟩
  decide +kernel

/-- A name that is short enough. -/
theorem persisted_names_edge :
    ∃ hash, (emptyPlan "edge").id .plain = .ok hash ∧ PersistedNames "edge" hash 1 := by
  obtain ⟨hash, hid⟩ := emptyPlan_id "edge" (by decide +kernel)
  exact ⟨hash, hid, (persisted_names_iff .plain (emptyPlan "edge") hash hid (by decide +kernel) 1 (by decide)).2
    (by decide +kernel)⟩

end FortigateDns
