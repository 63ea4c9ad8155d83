import FortigateDns.Go.Strings
import Mathlib.Data.List.TakeWhile

/-!
# Case and spaces

What the tables of `unicode` give: lower case is a fixed point of `unicode.ToLower`, upper case of
`unicode.ToUpper`, and neither makes spaces. All is checked on the runs of the tables, pair by pair.

* `mapCase_idem`, `isSpace_mapCase`: **the two facts for any such table.**
* `toLower_toLower`, `toUpper_toUpper`, `trimSpace_trimSpace`, `trimSpace_toLower`: the string functions are
  idempotent and commute.
-/

namespace Go

open List

variable {p : Char → Bool}

/-- A run of a case table: the first and the last code point, the stride and the offset. -/
abbrev CaseRun := Nat × Nat × Nat × Int

/-- The code point is one of the run. -/
def inRun (run : CaseRun) (n : Nat) : Bool := run.1 ≤ n && n ≤ run.2.1 && (n - run.1) % run.2.2.1 == 0

/-- The image of the first character. -/
def imageFirst (run : CaseRun) : Nat := (run.1 + run.2.2.2).toNat

/-- The image of the last character. -/
def imageLast (run : CaseRun) : Nat := (run.2.1 + run.2.2.2).toNat

/-- The image of the first run and the second run have no common element: they are apart, or the
image has one residue and the run another. -/
def imageAvoids (run run' : CaseRun) : Bool :=
  Nat.blt (imageLast run) run'.1 || Nat.blt run'.2.1 (imageFirst run) ||
    ((run.2.2.1 % run'.2.2.1 == 0 || run.1 == run.2.1) && imageFirst run % run'.2.2.1 != run'.1 % run'.2.2.1)

/-- The ranges of `unicode.IsSpace`. -/
def spaceRanges : List (Nat × Nat) :=
  [(9, 13), (0x20, 0x20), (0x85, 0x85), (0xa0, 0xa0), (0x1680, 0x1680), (0x2000, 0x200a), (0x2028, 0x2029),
   (0x202f, 0x202f), (0x205f, 0x205f), (0x3000, 0x3000)]

/-- Neither the run nor its image has a space, and the image is made of characters. -/
def runPlain (run : CaseRun) : Bool :=
  decide (0 ≤ run.1 + run.2.2.2) &&
    (Nat.blt (imageLast run) 0xd800 || (Nat.blt 0xdfff (imageFirst run) && Nat.blt (imageLast run) 0x110000)) &&
    spaceRanges.all fun range =>
      (Nat.blt (imageLast run) range.1 || Nat.blt range.2 (imageFirst run)) &&
        (Nat.blt run.2.1 range.1 || Nat.blt range.2 run.1)

theorem lowerRanges_avoid :
    (lowerRanges.all fun run => lowerRanges.all fun run' => imageAvoids run run') = true := by
  decide +kernel

theorem lowerRanges_plain : lowerRanges.all runPlain = true := by decide +kernel

variable {run run' : CaseRun} {n : Nat}

theorem inRun_iff : inRun run n = true ↔ run.1 ≤ n ∧ n ≤ run.2.1 ∧ (n - run.1) % run.2.2.1 = 0 := by
  simp [inRun, and_assoc]

theorem inRun_image (h : inRun run n = true) :
    imageFirst run ≤ (n + run.2.2.2).toNat ∧ (n + run.2.2.2).toNat ≤ imageLast run := by
  obtain ⟨hlo, hhi, -⟩ := inRun_iff.1 h
  unfold imageFirst imageLast
  omega

/-- The offset from the start of a run is the offset from the start of its image. -/
theorem inRun_image_eq (hplain : runPlain run = true) (h : inRun run n = true) :
    (n + run.2.2.2).toNat = imageFirst run + (n - run.1) := by
  obtain ⟨hlo, -, -⟩ := inRun_iff.1 h
  have hpositive : 0 ≤ (run.1 : Int) + run.2.2.2 := by
    simp only [runPlain, Bool.and_eq_true, decide_eq_true_eq] at hplain
    exact hplain.1.1
  unfold imageFirst
  omega

theorem not_inRun_of_avoids (hplain : runPlain run = true) (havoids : imageAvoids run run' = true)
    (h : inRun run n = true) : inRun run' (n + run.2.2.2).toNat = false := by
  rw [Bool.eq_false_iff]
  intro himage
  obtain ⟨hfirst, hlast⟩ := inRun_image h
  have heq := inRun_image_eq hplain h
  obtain ⟨hlo, hhi, hmod⟩ := inRun_iff.1 h
  obtain ⟨hlo', hhi', hmod'⟩ := inRun_iff.1 himage
  simp only [imageAvoids, Bool.or_eq_true, Bool.and_eq_true, Nat.blt_eq, beq_iff_eq, bne_iff_ne] at havoids
  rcases havoids with (hapart | hapart) | ⟨hstride, hresidue⟩
  · omega
  · omega
  · -- the image has the residue of its first element, the run that of its own
    have hrun' : (n + run.2.2.2).toNat % run'.2.2.1 = run'.1 % run'.2.2.1 := by
      rw [← Nat.sub_add_cancel hlo', Nat.add_mod, hmod', Nat.zero_add, Nat.mod_mod]
    have hrun : (n + run.2.2.2).toNat % run'.2.2.1 = imageFirst run % run'.2.2.1 := by
      have hdvd : run'.2.2.1 ∣ n - run.1 := by
        rcases hstride with hstride | hsingle
        · exact Nat.dvd_trans (Nat.dvd_of_mod_eq_zero hstride) (Nat.dvd_of_mod_eq_zero hmod)
        · rw [show n - run.1 = 0 by omega]
          exact Nat.dvd_zero _
      rw [heq, Nat.add_mod, Nat.mod_eq_zero_of_dvd hdvd, Nat.add_zero, Nat.mod_mod]
    exact hresidue (hrun.symm.trans hrun')

/-- A code point is left alone, or belongs to a run that moves it. -/
theorem mapCase_cases (runs : List CaseRun) (n : Nat) :
    mapCase runs n = n ∨ ∃ run ∈ runs, inRun run n = true ∧ mapCase runs n = (n + run.2.2.2).toNat := by
  unfold mapCase
  cases hfind : runs.find? fun (lo, hi, stride, _) => lo ≤ n && n ≤ hi && (n - lo) % stride == 0 with
  | none => exact Or.inl rfl
  | some run =>
    have hrun := find?_some hfind
    exact Or.inr ⟨run, mem_of_find?_eq_some hfind, hrun, rfl⟩

theorem mapCase_fixed {runs : List CaseRun} (h : ∀ run ∈ runs, inRun run n = false) : mapCase runs n = n := by
  rcases mapCase_cases runs n with hfixed | ⟨run, hmem, hrun, -⟩
  · exact hfixed
  · rw [h run hmem] at hrun
    cases hrun

/-- A table whose images belong to no run of it is idempotent. -/
theorem mapCase_idem {runs : List CaseRun}
    (havoid : (runs.all fun run => runs.all fun run' => imageAvoids run run') = true)
    (hplain : runs.all runPlain = true) (n : Nat) : mapCase runs (mapCase runs n) = mapCase runs n := by
  rcases mapCase_cases runs n with hfixed | ⟨run, hmem, hrun, hmap⟩
  · rw [hfixed, hfixed]
  · rw [hmap]
    refine mapCase_fixed fun run' hmem' => not_inRun_of_avoids (all_eq_true.1 hplain run hmem) ?_ hrun
    exact all_eq_true.1 (all_eq_true.1 havoid run hmem) run' hmem'

theorem mapCase_mapCase (n : Nat) : mapCase lowerRanges (mapCase lowerRanges n) = mapCase lowerRanges n :=
  mapCase_idem lowerRanges_avoid lowerRanges_plain n

/-- The spaces, by their ranges. -/
theorem isSpace_iff (c : Char) :
    isSpace c = spaceRanges.any fun range => range.1 ≤ c.toNat && c.toNat ≤ range.2 := by
  unfold isSpace spaceRanges
  rw [Bool.eq_iff_iff]
  simp only [any_cons, any_nil, Bool.or_eq_true, Bool.and_eq_true, decide_eq_true_eq, beq_iff_eq, Bool.or_false]
  omega

theorem plain_valid (hplain : runPlain run = true) (h : inRun run n = true) :
    ((n + run.2.2.2).toNat).isValidChar := by
  obtain ⟨hfirst, hlast⟩ := inRun_image h
  simp only [runPlain, Bool.and_eq_true, Bool.or_eq_true, Nat.blt_eq] at hplain
  unfold Nat.isValidChar
  rcases hplain.1.2 with hlow | ⟨hhigh, hend⟩
  · exact Or.inl (by omega)
  · exact Or.inr ⟨by omega, by omega⟩

theorem toNat_valid (c : Char) : c.toNat.isValidChar := c.valid

theorem mapCase_valid {runs : List CaseRun} (hplain : runs.all runPlain = true) (c : Char) :
    (mapCase runs c.toNat).isValidChar := by
  rcases mapCase_cases runs c.toNat with hfixed | ⟨run, hmem, hrun, hmap⟩
  · rw [hfixed]
    exact toNat_valid c
  · rw [hmap]
    exact plain_valid (all_eq_true.1 hplain run hmem) hrun

theorem toNat_ofNat (h : n.isValidChar) : (Char.ofNat n).toNat = n := by
  rw [Char.ofNat, dif_pos h]
  rfl

/-- Below 0x80 only the capital letters move. -/
theorem mapCase_ascii : ∀ n < 0x80, mapCase lowerRanges n = if 65 ≤ n ∧ n ≤ 90 then n + 32 else n := by
  decide +kernel

theorem lowerChar_eq (c : Char) : lowerChar c = Char.ofNat (mapCase lowerRanges c.toNat) := by
  unfold lowerChar
  split
  · rename_i hascii
    rw [mapCase_ascii _ hascii]
    have hcapital : ('A' ≤ c ∧ c ≤ 'Z') ↔ (65 ≤ c.toNat ∧ c.toNat ≤ 90) := Iff.rfl
    simp only [hcapital]
    split
    · rfl
    · exact (Char.ofNat_toNat c).symm
  · rfl

theorem lowerChar_toNat (c : Char) : (lowerChar c).toNat = mapCase lowerRanges c.toNat := by
  rw [lowerChar_eq]
  exact toNat_ofNat (mapCase_valid lowerRanges_plain c)

theorem lowerChar_lowerChar (c : Char) : lowerChar (lowerChar c) = lowerChar c := by
  rw [lowerChar_eq (lowerChar c), lowerChar_toNat, mapCase_mapCase, ← lowerChar_eq]

/-- No case table makes a space, or moves one. -/
theorem isSpace_mapCase {runs : List CaseRun} (hruns : runs.all runPlain = true) {c d : Char}
    (hd : d.toNat = mapCase runs c.toNat) : isSpace d = isSpace c := by
  rw [isSpace_iff, isSpace_iff, hd]
  rcases mapCase_cases runs c.toNat with hfixed | ⟨run, hmem, hrun, hmap⟩
  · rw [hfixed]
  · -- neither the character nor its image is a space
    have hplain := all_eq_true.1 hruns run hmem
    obtain ⟨hfirst, hlast⟩ := inRun_image hrun
    obtain ⟨hlo, hhi, -⟩ := inRun_iff.1 hrun
    simp only [runPlain, Bool.and_eq_true, all_eq_true, Bool.or_eq_true, Nat.blt_eq] at hplain
    have himage : ∀ m, (imageFirst run ≤ m ∧ m ≤ imageLast run ∨ run.1 ≤ m ∧ m ≤ run.2.1) →
        (spaceRanges.any fun range => range.1 ≤ m && m ≤ range.2) = false := by
      intro m hm
      rw [any_eq_false]
      intro range hrange
      have := hplain.2 range hrange
      simp only [Bool.and_eq_true, decide_eq_true_eq]
      omega
    rw [hmap, himage _ (Or.inl ⟨hfirst, hlast⟩), himage _ (Or.inr ⟨hlo, hhi⟩)]

theorem isSpace_lowerChar (c : Char) : isSpace (lowerChar c) = isSpace c :=
  isSpace_mapCase lowerRanges_plain (lowerChar_toNat c)

theorem upperRanges_avoid :
    (upperRanges.all fun run => upperRanges.all fun run' => imageAvoids run run') = true := by
  decide +kernel

theorem upperRanges_plain : upperRanges.all runPlain = true := by decide +kernel

theorem mapCase_upper_ascii : ∀ n < 0x80, mapCase upperRanges n = if 97 ≤ n ∧ n ≤ 122 then n - 32 else n := by
  decide +kernel

theorem upperChar_toNat (c : Char) : (upperChar c).toNat = mapCase upperRanges c.toNat := by
  have heq : upperChar c = Char.ofNat (mapCase upperRanges c.toNat) := by
    unfold upperChar
    split
    · rename_i hascii
      rw [mapCase_upper_ascii _ hascii]
      have hsmall : ('a' ≤ c ∧ c ≤ 'z') ↔ (97 ≤ c.toNat ∧ c.toNat ≤ 122) := Iff.rfl
      simp only [hsmall]
      split
      · rfl
      · exact (Char.ofNat_toNat c).symm
    · rfl
  rw [heq]
  exact toNat_ofNat (mapCase_valid upperRanges_plain c)

theorem upperChar_upperChar (c : Char) : upperChar (upperChar c) = upperChar c := by
  refine Char.ext (UInt32.toNat_inj.1 ?_)
  show (upperChar (upperChar c)).toNat = (upperChar c).toNat
  rw [upperChar_toNat (upperChar c), upperChar_toNat, mapCase_idem upperRanges_avoid upperRanges_plain]

theorem isSpace_upperChar (c : Char) : isSpace (upperChar c) = isSpace c :=
  isSpace_mapCase upperRanges_plain (upperChar_toNat c)

theorem toLower_toLower (s : String) : toLower (toLower s) = toLower s := by
  simp [toLower, Function.comp_def, lowerChar_lowerChar]

theorem toUpper_toUpper (s : String) : toUpper (toUpper s) = toUpper s := by
  simp [toUpper, Function.comp_def, upperChar_upperChar]

theorem dropWhile_map {f : Char → Char} (h : ∀ c, p (f c) = p c) (l : List Char) :
    (l.map f).dropWhile p = (l.dropWhile p).map f := by
  induction l with
  | nil => rfl
  | cons c l ih =>
    rw [map_cons, dropWhile_cons, dropWhile_cons, h]
    split
    · exact ih
    · rfl

theorem trimBoth_map {f : Char → Char} (h : ∀ c, p (f c) = p c) (l : List Char) :
    trimBoth p (l.map f) = (trimBoth p l).map f := by
  unfold trimBoth
  rw [dropWhile_map h, ← map_reverse, dropWhile_map h, map_reverse]

theorem trimSpace_toLower (s : String) : trimSpace (toLower s) = toLower (trimSpace s) := by
  simp [trimSpace, toLower, trimBoth_map isSpace_lowerChar]

theorem trimSpace_toUpper (s : String) : trimSpace (toUpper s) = toUpper (trimSpace s) := by
  simp [trimSpace, toUpper, trimBoth_map isSpace_upperChar]

/-- Nothing is trimmed from a list whose ends stay. -/
theorem trimBoth_eq_self {l : List Char} (hhead : ∀ c ∈ l.head?, p c = false)
    (hlast : ∀ c ∈ l.getLast?, p c = false) : trimBoth p l = l := by
  have hdrop : ∀ l : List Char, (∀ c ∈ l.head?, p c = false) → l.dropWhile p = l := by
    intro l h
    cases l with
    | nil => rfl
    | cons c l => rw [dropWhile_cons, h c rfl, if_neg Bool.false_ne_true]
  unfold trimBoth
  rw [hdrop l hhead, hdrop l.reverse (by rw [head?_reverse]; exact hlast), reverse_reverse]

theorem head?_dropWhile_false (l : List Char) : ∀ c ∈ (l.dropWhile p).head?, p c = false := by
  intro c hc
  have := head?_dropWhile_not p l
  rw [Option.mem_def.1 hc] at this
  simpa using this

theorem trimBoth_getLast? (l : List Char) : ∀ c ∈ (trimBoth p l).getLast?, p c = false := by
  unfold trimBoth
  rw [getLast?_reverse]
  exact head?_dropWhile_false _

theorem trimBoth_head? (l : List Char) : ∀ c ∈ (trimBoth p l).head?, p c = false := by
  intro c hc
  -- what is left is a prefix of what is left of the front
  have hinit : trimBoth p l <+: l.dropWhile p := by
    unfold trimBoth
    have := dropWhile_suffix p (l := (l.dropWhile p).reverse)
    exact reverse_suffix.1 (by rwa [reverse_reverse])
  obtain ⟨rest, hrest⟩ := hinit
  refine head?_dropWhile_false l c ?_
  rw [← hrest, head?_append_of_ne_nil]
  · exact hc
  · rintro hnil
    rw [hnil] at hc
    cases hc

theorem trimSpace_trimSpace (s : String) : trimSpace (trimSpace s) = trimSpace s := by
  unfold trimSpace
  rw [String.toList_ofList, trimBoth_eq_self (trimBoth_head? _) (trimBoth_getLast? _)]

theorem equalFold_refl (s : String) : equalFold s s = true := by
  rw [equalFold, beq_self_eq_true]

theorem trimSuffix_prefix (s p : String) : (trimSuffix s p).toList <+: s.toList := by
  unfold trimSuffix cutSuffix
  split
  · rw [Option.getD_some, String.toList_ofList]
    exact take_prefix _ _
  · exact prefix_rfl

/-- A text is not blank when its first character is no white space. -/
theorem trimSpace_ne_empty {s : String} {c : Char} (h : s.toList.head? = some c) (hc : isSpace c = false) :
    trimSpace s ≠ "" := by
  intro hempty
  have hnil : trimBoth isSpace s.toList = [] := by
    have := congrArg String.toList hempty
    rwa [trimSpace, String.toList_ofList] at this
  obtain ⟨rest, hrest⟩ := head?_eq_some_iff.1 h
  unfold trimBoth at hnil
  rw [hrest, dropWhile_cons_of_neg (by simp [hc]), reverse_eq_nil_iff, dropWhile_eq_nil_iff] at hnil
  have := hnil c (mem_reverse.2 mem_cons_self)
  simp [hc] at this

end Go
