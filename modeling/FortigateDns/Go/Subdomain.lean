import Mathlib.Data.List.Chain
import FortigateDns.Go.Names

/-!
# Subdomains, character by character

A subdomain is checked label by label. Said of its characters: letters, digits, hyphens and
dots, a letter or a digit at both ends, and on both sides of every dot. In this form it can be
cut and extended.

* `formatInt36_alnum`, `length_formatInt36_le`: the digits of a number.
-/

namespace Go

open List

variable {l : List Char} {c : Char} {n : Nat}

/-- What may follow what in a name: a dot stands between letters and digits. -/
def NameStep (a b : Char) : Prop := (a = '.' → isLowerAlnum b = true) ∧ (b = '.' → isLowerAlnum a = true)

/-- **The characters of a name.** -/
structure NameText (l : List Char) : Prop where
  chars : ∀ c ∈ l, isNameChar c = true
  first : ∃ c, l.head? = some c ∧ isLowerAlnum c = true
  last : ∃ c, l.getLast? = some c ∧ isLowerAlnum c = true
  steps : l.IsChain NameStep

theorem NameText.ne_nil (h : NameText l) : l ≠ [] := by
  obtain ⟨c, hc, -⟩ := h.first
  rintro rfl
  cases hc

theorem isLowerAlnum_of_ne (h : isNameChar c = true) (hhyphen : c ≠ '-') (hdot : c ≠ '.') :
    isLowerAlnum c = true := by
  simpa [isNameChar, hhyphen, hdot] using h

theorem isNameChar_of_alnum (h : isLowerAlnum c = true) : isNameChar c = true := by
  simp [isNameChar, h]

theorem ne_of_alnum (h : isLowerAlnum c = true) : c ≠ '-' ∧ c ≠ '.' := by
  constructor
  · rintro rfl; exact absurd h (by decide)
  · rintro rfl; exact absurd h (by decide)

theorem steps_of_no_dot (h : '.' ∉ l) : l.IsChain NameStep := by
  rw [isChain_iff_forall_rel_of_append_cons_cons]
  rintro a b before after rfl
  refine ⟨fun ha => absurd ?_ h, fun hb => absurd ?_ h⟩
  · simp [ha]
  · simp [hb]

/-- A text without dots is a name if it is a label. -/
theorem labelPattern_iff (h : '.' ∉ l) : labelPattern l = true ↔ NameText l := by
  constructor
  · intro hl
    simp only [labelPattern, Bool.and_eq_true, all_eq_true, bne_iff_ne, Bool.not_eq_true',
      isEmpty_eq_false_iff] at hl
    obtain ⟨⟨⟨hne, hall⟩, hfirst⟩, hlast⟩ := hl
    have hname : ∀ c ∈ l, isNameChar c = true := fun c hc => by
      unfold isNameChar
      rw [hall c hc, Bool.true_or]
    have halnum : ∀ c ∈ l, c ≠ '-' → isLowerAlnum c = true := fun c hc hhyphen =>
      isLowerAlnum_of_ne (hname c hc) hhyphen fun hdot => h (hdot ▸ hc)
    refine ⟨hname, ⟨l.head hne, head?_eq_some_head hne, ?_⟩, ⟨l.getLast hne, getLast?_eq_some_getLast hne, ?_⟩,
      steps_of_no_dot h⟩
    · refine halnum _ (head_mem hne) fun heq => hfirst ?_
      rw [head?_eq_some_head hne, heq]
    · refine halnum _ (getLast_mem hne) fun heq => hlast ?_
      rw [getLast?_eq_some_getLast hne, heq]
  · intro hl
    obtain ⟨a, ha, hfirst⟩ := hl.first
    obtain ⟨z, hz, hlast⟩ := hl.last
    simp only [labelPattern, Bool.and_eq_true, all_eq_true, bne_iff_ne, Bool.not_eq_true',
      isEmpty_eq_false_iff]
    refine ⟨⟨⟨hl.ne_nil, fun c hc => ?_⟩, ?_⟩, ?_⟩
    · have hdot : c ≠ '.' := fun hdot => h (hdot ▸ hc)
      have := hl.chars c hc
      simpa [isNameChar, hdot] using this
    · rw [ha]
      simpa using (ne_of_alnum hfirst).1
    · rw [hz]
      simpa using (ne_of_alnum hlast).1

/-- A dot joins two names. -/
theorem nameText_dot_iff {a r : List Char} : NameText (a ++ '.' :: r) ↔ NameText a ∧ NameText r := by
  constructor
  · intro h
    obtain ⟨hsteps, hdot, hjoin⟩ := isChain_append.1 h.steps
    obtain ⟨hnext, hrest⟩ := isChain_cons.1 hdot
    -- neither side is empty: the ends of the text are no dots
    have ha : a ≠ [] := by
      rintro rfl
      obtain ⟨c, hc, hfirst⟩ := h.first
      cases hc
      exact absurd hfirst (by decide)
    have hr : r ≠ [] := by
      rintro rfl
      obtain ⟨c, hc, hlast⟩ := h.last
      rw [getLast?_concat] at hc
      cases hc
      exact absurd hlast (by decide)
    refine ⟨⟨fun c hc => h.chars c (mem_append_left _ hc), ?_, ?_, hsteps⟩,
      ⟨fun c hc => h.chars c (mem_append_right _ (mem_cons_of_mem _ hc)), ?_, ?_, hrest⟩⟩
    · obtain ⟨c, hc, hfirst⟩ := h.first
      rw [head?_append_of_ne_nil _ ha] at hc
      exact ⟨c, hc, hfirst⟩
    · have hlast := getLast?_eq_some_getLast ha
      exact ⟨_, hlast, (hjoin _ hlast _ rfl).2 rfl⟩
    · have hhead := head?_eq_some_head hr
      exact ⟨_, hhead, (hnext _ hhead).1 rfl⟩
    · obtain ⟨c, hc, hlast⟩ := h.last
      rw [getLast?_append_of_ne_nil _ (cons_ne_nil _ _), getLast?_cons_of_ne_nil hr] at hc
      exact ⟨c, hc, hlast⟩
  · rintro ⟨ha, hr⟩
    obtain ⟨z, hz, hlast⟩ := ha.last
    obtain ⟨b, hb, hfirst⟩ := hr.first
    refine ⟨fun c hc => ?_, ?_, ?_, ?_⟩
    · rcases mem_append.1 hc with hc | hc
      · exact ha.chars c hc
      · rcases mem_cons.1 hc with rfl | hc
        · rfl
        · exact hr.chars c hc
    · obtain ⟨c, hc, halnum⟩ := ha.first
      exact ⟨c, by rw [head?_append_of_ne_nil _ ha.ne_nil, hc], halnum⟩
    · obtain ⟨c, hc, halnum⟩ := hr.last
      refine ⟨c, ?_, halnum⟩
      rw [getLast?_append_of_ne_nil _ (cons_ne_nil _ _), getLast?_cons_of_ne_nil hr.ne_nil, hc]
    · refine ha.steps.append (hr.steps.cons ?_) ?_
      · intro y hy
        rw [hb] at hy
        cases hy
        exact ⟨fun _ => hfirst, fun heq => absurd heq (ne_of_alnum hfirst).2⟩
      · intro x hx y hy
        rw [hz] at hx
        cases hx
        cases hy
        exact ⟨fun heq => absurd heq (ne_of_alnum hlast).2, fun _ => hlast⟩

/-- **The check of the labels is a check of the characters.** -/
theorem labels_iff (l : List Char) : (labels l).all labelPattern = true ↔ NameText l := by
  -- by the number of characters: the first label and what follows its dot
  induction hn : l.length using Nat.strong_induction_on generalizing l with
  | _ n ih =>
    by_cases hdot : '.' ∈ l
    · obtain ⟨a, r, rfl, ha⟩ := eq_append_cons_of_mem hdot
      have hlabels : labels (a ++ '.' :: r) = a :: labels r := splitOn_append_cons_self_of_not_mem ha r
      have hshorter : r.length < n := by
        rw [← hn, length_append, length_cons]
        omega
      rw [hlabels, all_cons, Bool.and_eq_true, labelPattern_iff ha, ih _ hshorter r rfl, nameText_dot_iff]
    · have hlabels : labels l = [l] := splitOn_eq_singleton hdot
      rw [hlabels, all_cons, all_nil, Bool.and_true, labelPattern_iff hdot]

theorem isDNS1123Subdomain_iff (s : String) :
    isDNS1123Subdomain s = true ↔ s.toList.length ≤ 253 ∧ NameText s.toList := by
  unfold isDNS1123Subdomain
  rw [Bool.and_eq_true, decide_eq_true_eq, labels_iff]

/-- Letters and digits behind a hyphen extend a name. -/
theorem NameText.append_hyphen {suffix : List Char} (h : NameText l)
    (hsuffix : ∀ c ∈ suffix, isLowerAlnum c = true) (hne : suffix ≠ []) : NameText (l ++ '-' :: suffix) := by
  obtain ⟨z, hz, hlast⟩ := h.last
  refine ⟨fun c hc => ?_, ?_, ?_, ?_⟩
  · rcases mem_append.1 hc with hc | hc
    · exact h.chars c hc
    · rcases mem_cons.1 hc with rfl | hc
      · rfl
      · exact isNameChar_of_alnum (hsuffix c hc)
  · obtain ⟨c, hc, halnum⟩ := h.first
    exact ⟨c, by rw [head?_append_of_ne_nil _ h.ne_nil, hc], halnum⟩
  · refine ⟨suffix.getLast hne, ?_, hsuffix _ (getLast_mem hne)⟩
    rw [getLast?_append_of_ne_nil _ (cons_ne_nil _ _), getLast?_cons_of_ne_nil hne,
      getLast?_eq_some_getLast hne]
  · have hnodot : '.' ∉ '-' :: suffix := by
      rintro (_ | ⟨_, hmem⟩)
      exact (ne_of_alnum (hsuffix _ hmem)).2 rfl
    refine h.steps.append (steps_of_no_dot hnodot) fun x hx y hy => ?_
    rw [hz] at hx
    cases hx
    cases hy
    exact ⟨fun heq => absurd heq (ne_of_alnum hlast).2, fun heq => absurd heq (by decide)⟩

/-- A hyphen behind a dot: no name. -/
theorem not_nameText_dot_hyphen (l suffix : List Char) : ¬ NameText (l ++ '.' :: '-' :: suffix) := by
  intro h
  have hstep : NameStep '.' '-' :=
    isChain_iff_forall_rel_of_append_cons_cons.1 h.steps rfl
  exact absurd (hstep.1 rfl) (by decide)

/-- Trimming leaves the text and takes away characters at its end, if the first one stays. -/
theorem trimBoth_split {p : Char → Bool} (h : ∀ c ∈ l.head?, p c = false) :
    ∃ tail, l = trimBoth p l ++ tail ∧ ∀ c ∈ tail, p c = true := by
  have hfront : l.dropWhile p = l := by
    cases l with
    | nil => rfl
    | cons c l => rw [dropWhile_cons, h c rfl, if_neg Bool.false_ne_true]
  refine ⟨(l.reverse.takeWhile p).reverse, ?_, fun c hc => ?_⟩
  · unfold trimBoth
    rw [hfront, ← reverse_append, takeWhile_append_dropWhile, reverse_reverse]
  · exact mem_takeWhile_imp (mem_reverse.1 hc)

/-- **A name that is cut, and trimmed of hyphens, is a name unless the cut is behind a dot.** -/
theorem NameText.trim_take (h : NameText l) (hn : 0 < n) (hcut : (l.take n).getLast? ≠ some '.') :
    NameText (trimBoth (fun c => c = '-') (l.take n)) := by
  obtain ⟨a, ha, hfirst⟩ := h.first
  have hhead : (l.take n).head? = some a := by rw [head?_take, if_neg (by omega), ha]
  obtain ⟨hyphens, hsplit, hhyphens⟩ := trimBoth_split (p := fun c => c = '-') (l := l.take n) (by
    intro c hc
    rw [hhead] at hc
    cases hc
    simpa using (ne_of_alnum hfirst).1)
  have htrimmed : ∀ c ∈ (trimBoth (fun c => c = '-') (l.take n)).getLast?, decide (c = '-') = false :=
    trimBoth_getLast? (l.take n)
  generalize trimBoth (fun c => c = '-') (l.take n) = t at hsplit htrimmed ⊢
  have hne : t ≠ [] := by
    -- the first character is no hyphen
    rintro rfl
    rw [nil_append] at hsplit
    rw [hsplit] at hhead
    have := hhyphens a (mem_of_mem_head? hhead)
    exact (ne_of_alnum hfirst).1 (by simpa using this)
  have hl : l = t ++ (hyphens ++ l.drop n) := by
    rw [← append_assoc, ← hsplit, take_append_drop]
  have hsteps : t.IsChain NameStep := by
    have := h.steps
    rw [hl] at this
    exact this.left_of_append
  have hmem : ∀ c ∈ t, isNameChar c = true := fun c hc => h.chars c (by rw [hl]; exact mem_append_left _ hc)
  have hlast := getLast?_eq_some_getLast hne
  refine ⟨hmem, ⟨a, ?_, hfirst⟩, ⟨t.getLast hne, hlast, ?_⟩, hsteps⟩
  · rw [hsplit, head?_append_of_ne_nil _ hne] at hhead
    exact hhead
  · refine isLowerAlnum_of_ne (hmem _ (getLast_mem hne)) (by simpa using htrimmed _ hlast) fun hdot => ?_
    cases hyphens with
    | nil =>
      rw [append_nil] at hsplit
      rw [hsplit, hlast, hdot] at hcut
      exact hcut rfl
    | cons c hyphens =>
      -- behind a dot there is no hyphen in the name
      have hc : c = '-' := by simpa using hhyphens c mem_cons_self
      have hdots : t = t.dropLast ++ ['.'] := by rw [← hdot, dropLast_append_getLast]
      rw [hl, hdots, hc] at h
      refine not_nameText_dot_hyphen t.dropLast (hyphens ++ l.drop n) ?_
      simpa using h

theorem digit36_alnum (h : n < 36) : isLowerAlnum (digit36 n) = true := by
  have hall : ∀ n < 36, isLowerAlnum (digit36 n) = true := by decide
  exact hall n h

theorem formatInt36_alnum (n : Nat) : ∀ c ∈ formatInt36 n, isLowerAlnum c = true := by
  induction n using Nat.strong_induction_on with
  | _ n ih =>
    intro c hc
    unfold formatInt36 at hc
    split at hc
    case isTrue h =>
      rw [mem_singleton.1 hc]
      exact digit36_alnum h
    case isFalse h =>
      rcases mem_append.1 hc with hc | hc
      · exact ih (n / 36) (by omega) c hc
      · rw [mem_singleton.1 hc]
        exact digit36_alnum (Nat.mod_lt _ (by decide))

theorem formatInt36_ne_nil (n : Nat) : formatInt36 n ≠ [] := by
  unfold formatInt36
  split
  · exact cons_ne_nil _ _
  · simp

/-- A number below `36 ^ k` has at most `k` digits. -/
theorem length_formatInt36_le {k : Nat} (hk : 0 < k) (h : n < 36 ^ k) : (formatInt36 n).length ≤ k := by
  induction k generalizing n with
  | zero => omega
  | succ k ih =>
    unfold formatInt36
    split
    · simp
    · rename_i hlarge
      have hpos : 0 < k := by
        rcases Nat.eq_zero_or_pos k with rfl | hpos
        · omega
        · exact hpos
      have hrest : n / 36 < 36 ^ k := by
        rw [Nat.div_lt_iff_lt_mul (by decide), ← Nat.pow_succ]
        exact h
      have := ih hpos hrest
      rw [length_append, length_singleton]
      omega

end Go
