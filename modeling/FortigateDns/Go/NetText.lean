import FortigateDns.Go.Names
import FortigateDns.Go.Net
import Mathlib.Data.List.TakeDrop

/-!
# An address is read back from its text

`net.ParseIP` of `IP.String` is the address. The text of an IPv6 address is its groups, with the
longest run of zeros left out; the reader puts back as many zeros as are missing.

* `parseGroups_text`, `parseGroups_ellipsis`: **the reader finds the groups**, to the end and up to a `::`.
-/

namespace Go

open List

variable {a b d n : Nat} {l rest : List Char} {c : Char} {gs groups : List Nat} {ip : IP}

theorem parseOctet_repr : ∀ a < 256, parseOctet (Nat.toDigits 10 a) = some a := by decide +kernel

theorem dot_notMem_toDigits (a : Nat) : '.' ∉ Nat.toDigits 10 a := by
  intro h
  have hdigit := Nat.isDigit_of_mem_toDigits (b := 10) (n := a) (by decide) (by decide) h
  exact absurd hdigit (by decide)

/-- The four octets of a dotted text. -/
def dotted (a b c d : Nat) : List Char :=
  Nat.toDigits 10 a ++ '.' :: (Nat.toDigits 10 b ++ '.' :: (Nat.toDigits 10 c ++ '.' :: Nat.toDigits 10 d))

theorem parseIPv4Fields_dotted {c : Nat} (ha : a < 256) (hb : b < 256) (hc : c < 256) (hd : d < 256) :
    parseIPv4Fields (dotted a b c d) = some (a, b, c, d) := by
  have hsplit : (dotted a b c d).splitOn '.' =
      [Nat.toDigits 10 a, Nat.toDigits 10 b, Nat.toDigits 10 c, Nat.toDigits 10 d] := by
    unfold dotted
    rw [splitOn_append_cons_self_of_not_mem (dot_notMem_toDigits a),
      splitOn_append_cons_self_of_not_mem (dot_notMem_toDigits b),
      splitOn_append_cons_self_of_not_mem (dot_notMem_toDigits c), splitOn_eq_singleton (dot_notMem_toDigits d)]
  unfold parseIPv4Fields
  rw [hsplit]
  simp only [mapM_cons, mapM_nil, parseOctet_repr a ha, parseOctet_repr b hb, parseOctet_repr c hc,
    parseOctet_repr d hd]
  rfl

/-- A text that begins with a digit and has a dot before any colon is read as dotted. -/
theorem find?_separator (hl : ∀ d ∈ l, d ≠ '.' ∧ d ≠ ':' ∧ d ≠ '%') (hc : c = '.' ∨ c = ':' ∨ c = '%') :
    (l ++ c :: rest).find? (fun c => decide (c = '.' ∨ c = ':' ∨ c = '%')) = some c := by
  rw [find?_append, find?_eq_none.2, Option.none_or, find?_cons_of_pos]
  · exact decide_eq_true hc
  · intro d hd
    obtain ⟨hdot, hcolon, hpercent⟩ := hl d hd
    simp [hdot, hcolon, hpercent]

/-- The digits of a group. -/
def hexDigits (g : Nat) : List Char := Nat.toDigits 16 g

theorem hexDigit_digitChar : ∀ d < 16, hexDigit (Nat.digitChar d) = some d := by decide

/-- **The digits of a number are read back**, and all of them are digits. -/
theorem hexDigits_value (g : Nat) :
    ((hexDigits g).filterMap hexDigit).foldl (fun v d => v * 16 + d) 0 = g ∧
      ∀ c ∈ hexDigits g, (hexDigit c).isSome = true := by
  induction g using Nat.strong_induction_on with
  | _ g ih =>
    unfold hexDigits
    rw [Nat.toDigits_eq_if (by decide)]
    by_cases hsmall : g < 16
    · rw [if_pos hsmall]
      have hdigit := hexDigit_digitChar g hsmall
      refine ⟨?_, fun c hc => ?_⟩
      · rw [filterMap_cons_some hdigit]
        simp
      · rw [mem_singleton.1 hc, hdigit]
        rfl
    · rw [if_neg hsmall]
      obtain ⟨hvalue, hdigits⟩ := ih (g / 16) (by omega)
      have hdigit := hexDigit_digitChar (g % 16) (Nat.mod_lt _ (by decide))
      unfold hexDigits at hvalue hdigits
      refine ⟨?_, fun c hc => ?_⟩
      · rw [filterMap_append, foldl_append, hvalue, filterMap_cons_some hdigit, filterMap_nil,
          foldl_cons, foldl_nil]
        omega
      · rcases mem_append.1 hc with hc | hc
        · exact hdigits c hc
        · rw [mem_singleton.1 hc, hdigit]
          rfl

theorem hexDigits_ne_nil (g : Nat) : hexDigits g ≠ [] := Nat.toDigits_ne_nil

theorem length_hexDigits {g : Nat} (h : g < 65536) : (hexDigits g).length ≤ 4 :=
  (Nat.length_toDigits_le_iff (by decide) (by decide)).2 h

theorem ne_of_hexDigit (h : (hexDigit c).isSome = true) : c ≠ '.' ∧ c ≠ ':' ∧ c ≠ '%' := by
  refine ⟨?_, ?_, ?_⟩ <;> rintro rfl <;> exact absurd h (by decide)

/-- A group ends where no digit follows. -/
theorem spanHex_group (g : Nat) (h : ∀ c ∈ rest.head?, (hexDigit c).isSome = false) :
    spanHex (hexDigits g ++ rest) = (hexDigits g, rest) := by
  have hdigits := (hexDigits_value g).2
  have htake : rest.takeWhile (fun c => (hexDigit c).isSome) = [] := by
    cases rest with
    | nil => rfl
    | cons c rest => rw [takeWhile_cons_of_neg (by rw [h c rfl]; decide)]
  have hdrop : rest.dropWhile (fun c => (hexDigit c).isSome) = rest := by
    cases rest with
    | nil => rfl
    | cons c rest => rw [dropWhile_cons_of_neg (by rw [h c rfl]; decide)]
  unfold spanHex
  rw [span_eq_takeWhile_dropWhile, takeWhile_append_of_pos hdigits, dropWhile_append_of_pos hdigits, htake,
    hdrop, append_nil]

section Groups

variable {fuel g : Nat} {acc : List Nat} {ell : Option Nat}

/-- One group, and what the reader does with the rest. -/
theorem parseGroups_group (hg : g < 65536) (h : ∀ c ∈ rest.head?, (hexDigit c).isSome = false)
    (hdot : rest.head? ≠ some '.') :
    parseGroups (fuel + 1) acc ell (hexDigits g ++ rest) =
      match rest with
      | [] => some (acc ++ [g], ell)
      | [_] => none
      | c :: d :: rest =>
        if c ≠ ':' then none
        else if d = ':' then
          if ell.isSome then none
          else if rest = [] then some (acc ++ [g], some (acc ++ [g]).length)
          else parseGroups fuel (acc ++ [g]) (some (acc ++ [g]).length) rest
        else parseGroups fuel (acc ++ [g]) ell (d :: rest) := by
  have hshort : ¬ (hexDigits g = [] ∨ 4 < (hexDigits g).length) := by
    rw [not_or]
    exact ⟨hexDigits_ne_nil g, Nat.not_lt.2 (length_hexDigits hg)⟩
  rw [parseGroups, spanHex_group g h]
  dsimp only
  rw [if_neg hshort, if_neg hdot, (hexDigits_value g).1]
  cases rest with
  | nil => rfl
  | cons c rest => cases rest <;> rfl

/-- The text of some groups. -/
def groupsText : List Nat → List Char
  | [] => []
  | [g] => hexDigits g
  | g :: h :: rest => hexDigits g ++ ':' :: groupsText (h :: rest)

theorem groupsText_head (g : Nat) (rest : List Nat) :
    ∃ c text, groupsText (g :: rest) = c :: text ∧ (hexDigit c).isSome = true := by
  obtain ⟨c, text, htext⟩ := exists_cons_of_ne_nil (hexDigits_ne_nil g)
  have hc : (hexDigit c).isSome = true := (hexDigits_value g).2 c (by rw [htext]; exact mem_cons_self)
  cases rest with
  | nil => exact ⟨c, text, htext, hc⟩
  | cons h rest =>
    refine ⟨c, text ++ ':' :: groupsText (h :: rest), ?_, hc⟩
    rw [groupsText, htext, cons_append]

theorem colon_head (rest : List Char) : ∀ c ∈ (':' :: rest).head?, (hexDigit c).isSome = false := by
  intro c hc
  cases hc
  decide

/-- A group and a colon are read, and the next group follows. -/
theorem parseGroups_next (hg : g < 65536) {h : Nat} :
    parseGroups (fuel + 1) acc ell (hexDigits g ++ ':' :: (groupsText (h :: gs) ++ rest)) =
      parseGroups fuel (acc ++ [g]) ell (groupsText (h :: gs) ++ rest) := by
  obtain ⟨c, text, htext, hc⟩ := groupsText_head h gs
  rw [parseGroups_group hg (colon_head _) (by rw [head?_cons]; decide), htext, cons_append]
  dsimp only
  rw [if_neg (by decide), if_neg (ne_of_hexDigit hc).2.1]

/-- **Groups that end the text** are read to the end. -/
theorem parseGroups_text (hne : gs ≠ []) (hgs : ∀ g ∈ gs, g < 65536) (hfuel : gs.length ≤ fuel) :
    parseGroups fuel acc ell (groupsText gs) = some (acc ++ gs, ell) := by
  induction gs generalizing fuel acc with
  | nil => exact absurd rfl hne
  | cons g gs ih =>
    cases fuel with
    | zero => exact absurd hfuel (Nat.not_succ_le_zero _)
    | succ fuel =>
      have hg := hgs g mem_cons_self
      cases gs with
      | nil =>
        have hread : parseGroups (fuel + 1) acc ell (hexDigits g ++ []) = some (acc ++ [g], ell) :=
          parseGroups_group hg (fun c hc => by cases hc) (by decide)
        rw [append_nil] at hread
        exact hread
      | cons h gs =>
        have hnext : parseGroups (fuel + 1) acc ell (hexDigits g ++ ':' :: (groupsText (h :: gs) ++ [])) =
            parseGroups fuel (acc ++ [g]) ell (groupsText (h :: gs) ++ []) := parseGroups_next hg
        rw [append_nil] at hnext
        rw [groupsText, hnext, ih (cons_ne_nil _ _) (fun x hx => hgs x (mem_cons_of_mem _ hx))
          (Nat.le_of_succ_le_succ hfuel), append_assoc]
        rfl

/-- **Groups up to a `::`.** -/
theorem parseGroups_ellipsis (hne : gs ≠ []) (hgs : ∀ g ∈ gs, g < 65536) (hfuel : gs.length ≤ fuel)
    (rest : List Char) :
    parseGroups fuel acc none (groupsText gs ++ ':' :: ':' :: rest) =
      if rest = [] then some (acc ++ gs, some (acc ++ gs).length)
      else parseGroups (fuel - gs.length) (acc ++ gs) (some (acc ++ gs).length) rest := by
  induction gs generalizing fuel acc with
  | nil => exact absurd rfl hne
  | cons g gs ih =>
    cases fuel with
    | zero => exact absurd hfuel (Nat.not_succ_le_zero _)
    | succ fuel =>
      have hg := hgs g mem_cons_self
      cases gs with
      | nil =>
        rw [groupsText, parseGroups_group hg (colon_head _) (by rw [head?_cons]; decide)]
        dsimp only
        rw [if_neg (by decide), if_pos rfl, if_neg (by decide)]
        rfl
      | cons h gs =>
        have hsub : fuel + 1 - (g :: h :: gs).length = fuel - (h :: gs).length := Nat.add_sub_add_right fuel 1 _
        rw [groupsText, append_assoc, cons_append, parseGroups_next hg,
          ih (cons_ne_nil _ _) (fun x hx => hgs x (mem_cons_of_mem _ hx)) (Nat.le_of_succ_le_succ hfuel),
          append_assoc, singleton_append, hsub]

end Groups

/-- **What the `::` stands for**: a run of zeros of this length, at least two, from this position on. -/
theorem longestZeroRun_spec {i : Nat} (h : longestZeroRun groups = some (i, n)) :
    2 ≤ n ∧ n = ((groups.drop i).takeWhile (· = 0)).length := by
  have hloop : ∀ (l : List Nat) (best : Option (Nat × Nat)),
      (∀ i n, best = some (i, n) → 2 ≤ n ∧ n = ((groups.drop i).takeWhile (· = 0)).length) →
      ∀ i n, l.foldl (fun best i =>
        let n := ((groups.drop i).takeWhile (· = 0)).length
        if 2 ≤ n ∧ (best.map Prod.snd).getD 0 < n then some (i, n) else best) best = some (i, n) →
      2 ≤ n ∧ n = ((groups.drop i).takeWhile (· = 0)).length := by
    intro l
    induction l with
    | nil => exact fun best hbest => hbest
    | cons j l ih =>
      intro best hbest
      rw [foldl_cons]
      refine ih _ fun i n hin => ?_
      dsimp only at hin
      split at hin
      · rename_i hlonger
        obtain ⟨rfl, rfl⟩ := Prod.mk.inj (Option.some.inj hin)
        exact ⟨hlonger.1, rfl⟩
      · exact hbest i n hin
  exact hloop _ none (fun i n hnone => by cases hnone) i n h

/-- The groups around the run. -/
theorem groups_around {i : Nat} (h : longestZeroRun groups = some (i, n)) :
    groups = groups.take i ++ List.replicate n 0 ++ groups.drop (i + n) := by
  obtain ⟨-, hn⟩ := longestZeroRun_spec h
  have hzeros : (groups.drop i).takeWhile (· = 0) = List.replicate n 0 := by
    rw [eq_replicate_iff]
    exact ⟨hn.symm, fun g hg => by simpa using mem_takeWhile_imp hg⟩
  have hrest : (groups.drop i).dropWhile (· = 0) = groups.drop (i + n) := by
    have hsplit := takeWhile_append_dropWhile (p := fun g : Nat => decide (g = 0)) (l := groups.drop i)
    have hdrop := congrArg (List.drop n) hsplit
    rw [drop_append, ← hn, Nat.sub_self, drop_zero, drop_eq_nil_of_le (le_of_eq hn.symm), nil_append,
      drop_drop] at hdrop
    exact hdrop
  calc groups = groups.take i ++ groups.drop i := (take_append_drop i groups).symm
    _ = groups.take i ++ (List.replicate n 0 ++ groups.drop (i + n)) := by
        rw [← hzeros, ← hrest, takeWhile_append_dropWhile]
    _ = groups.take i ++ List.replicate n 0 ++ groups.drop (i + n) := (append_assoc _ _ _).symm

theorem toList_hexGroups (groups : List Nat) : (hexGroups groups).toList = groupsText groups := by
  unfold hexGroups
  induction groups with
  | nil => rfl
  | cons g groups ih =>
    cases groups with
    | nil =>
      rw [map_cons, map_nil, join, String.toList_ofList]
      rfl
    | cons h groups =>
      rw [map_cons] at ih
      rw [map_cons, map_cons, toList_join_cons, ih, String.toList_ofList, groupsText]
      rfl

theorem mkIP_groups (ip : IP) : mkIP ip.groups = some ip := by
  unfold mkIP
  rw [dif_pos ⟨ip.length_eq, ip.bounded⟩]

theorem to4_some {c : Nat} (h : ip.to4 = some (a, b, c, d)) :
    ip.groups = [0, 0, 0, 0, 0, 0xffff, a * 256 + b, c * 256 + d] ∧ a < 256 ∧ b < 256 ∧ c < 256 ∧ d < 256 := by
  obtain ⟨groups, hlength, hbounded⟩ := ip
  unfold IP.to4 at h
  dsimp only at h ⊢
  split at h
  · rename_i hi lo
    simp only [Option.some.injEq, Prod.mk.injEq] at h
    obtain ⟨rfl, rfl, rfl, rfl⟩ := h
    have hhi := hbounded hi (by simp)
    have hlo := hbounded lo (by simp)
    refine ⟨?_, by omega, by omega, by omega, by omega⟩
    simp only [List.cons.injEq, and_true, true_and]
    omega
  · cases h

/-- The text of an IPv4 address. -/
theorem parseIP_dotted {c : Nat} (h : ip.to4 = some (a, b, c, d)) : parseIP ip.toText = some ip := by
  obtain ⟨hgroups, ha, hb, hc, hd⟩ := to4_some h
  have htext : ip.toText.toList = dotted a b c d := by
    unfold IP.toText
    rw [h]
    dsimp only
    rw [toList_join_cons, toList_join_cons, toList_join_cons, join, Nat.toList_repr, Nat.toList_repr,
      Nat.toList_repr,
      Nat.toList_repr]
    rfl
  have hfirst : (dotted a b c d).find? (fun c => decide (c = '.' ∨ c = ':' ∨ c = '%')) = some '.' := by
    refine find?_separator (fun e he => ?_) (.inl rfl)
    have hdigit := Nat.isDigit_of_mem_toDigits (b := 10) (n := a) (by decide) (by decide) he
    refine ⟨?_, ?_, ?_⟩ <;> rintro rfl <;> exact absurd hdigit (by decide)
  unfold parseIP
  dsimp only
  rw [htext, hfirst]
  show (parseIPv4Fields (dotted a b c d)).bind _ = some ip
  rw [parseIPv4Fields_dotted ha hb hc hd, Option.bind_some]
  dsimp only
  rw [← hgroups]
  exact mkIP_groups ip

/-- A text of hexadecimal groups and colons. -/
def GroupText (l : List Char) : Prop := ∀ c ∈ l, c = ':' ∨ (hexDigit c).isSome = true

theorem groupText_groups (groups : List Nat) : GroupText (groupsText groups) := by
  induction groups with
  | nil => exact fun c hc => by cases hc
  | cons g groups ih =>
    cases groups with
    | nil => exact fun c hc => .inr ((hexDigits_value g).2 c hc)
    | cons h groups =>
      intro c hc
      rw [groupsText] at hc
      rcases mem_append.1 hc with hc | hc
      · exact .inr ((hexDigits_value g).2 c hc)
      · rcases mem_cons.1 hc with rfl | hc
        · exact .inl rfl
        · exact ih c hc

/-- A text of groups with a colon is read as IPv6. -/
theorem parseIP_groupText {s : String} (h : GroupText s.toList) (hcolon : ':' ∈ s.toList) :
    parseIP s = (parseIPv6 s.toList).bind mkIP := by
  obtain ⟨l, rest, hsplit, hl⟩ := eq_append_cons_of_mem hcolon
  have hchars : ∀ c ∈ s.toList, c ≠ '.' ∧ c ≠ '%' := by
    intro c hc
    rcases h c hc with rfl | hc
    · decide
    · exact ⟨(ne_of_hexDigit hc).1, (ne_of_hexDigit hc).2.2⟩
  have hfirst : s.toList.find? (fun c => decide (c = '.' ∨ c = ':' ∨ c = '%')) = some ':' := by
    rw [hsplit]
    refine find?_separator (fun c hc => ?_) (.inr (.inl rfl))
    obtain ⟨hdot, hpercent⟩ := hchars c (by rw [hsplit]; exact mem_append_left _ hc)
    exact ⟨hdot, fun heq => hl (heq ▸ hc), hpercent⟩
  have hzone : s.toList.contains '%' = false := by
    rw [← Bool.not_eq_true, contains_iff_mem]
    exact fun hmem => (hchars _ hmem).2 rfl
  unfold parseIP
  dsimp only
  rw [hfirst]
  show (if s.toList.contains '%' = true then none else (parseIPv6 s.toList).bind mkIP) = _
  rw [hzone, if_neg Bool.false_ne_true]

theorem parseIPv6_of_head {text : List Char} (h : (hexDigit c).isSome = true) :
    parseIPv6 (c :: text) = (parseGroups 8 [] none (c :: text)).bind fun (g, ell) => expandEllipsis g ell := by
  have hcolon := (ne_of_hexDigit h).2.1
  unfold parseIPv6
  split
  · rename_i heq
    exact absurd (List.cons.inj heq).1 hcolon
  · rfl

/-- All eight groups are written. -/
theorem parseIPv6_full (hlength : groups.length = 8) (hbounded : ∀ g ∈ groups, g < 65536) :
    parseIPv6 (groupsText groups) = some groups := by
  obtain ⟨g, rest, rfl⟩ := exists_cons_of_length_eq_add_one hlength
  obtain ⟨c, text, htext, hc⟩ := groupsText_head g rest
  rw [htext, parseIPv6_of_head hc, ← htext, parseGroups_text (cons_ne_nil _ _) hbounded (le_of_eq hlength),
    nil_append, Option.bind_some]
  dsimp only
  rw [expandEllipsis, if_pos hlength]

/-- **The groups around a `::`** are read back with as many zeros as are missing. -/
theorem parseIPv6_ellipsis {left right : List Nat} (hn : 2 ≤ n) (hlength : left.length + n + right.length = 8)
    (hleft : ∀ g ∈ left, g < 65536) (hright : ∀ g ∈ right, g < 65536) :
    parseIPv6 (groupsText left ++ ':' :: ':' :: groupsText right) =
      some (left ++ List.replicate n 0 ++ right) := by
  have hexpand : expandEllipsis (left ++ right) (some left.length) =
      some (left ++ List.replicate n 0 ++ right) := by
    unfold expandEllipsis
    dsimp only
    rw [if_pos (by rw [length_append]; omega), take_left, drop_left, length_append,
      show 8 - (left.length + right.length) = n by omega]
  have hempty : groupsText right = [] ↔ right = [] := by
    cases right with
    | nil => simp [groupsText]
    | cons g right =>
      obtain ⟨c, text, htext, -⟩ := groupsText_head g right
      simp [htext]
  cases left with
  | nil =>
    show (if groupsText right = [] then some (List.replicate 8 0) else
      (parseGroups 8 [] (some 0) (groupsText right)).bind fun (g, ell) => expandEllipsis g ell) = _
    by_cases hnil : right = []
    · subst hnil
      obtain rfl : n = 8 := by simpa using hlength
      rw [if_pos (hempty.2 rfl)]
      rfl
    · rw [if_neg (mt hempty.1 hnil), parseGroups_text hnil hright (by simp at hlength; omega), nil_append,
        Option.bind_some]
      exact hexpand
  | cons g left =>
    obtain ⟨c, text, htext, hc⟩ := groupsText_head g left
    rw [htext, cons_append, parseIPv6_of_head hc, ← cons_append, ← htext,
      parseGroups_ellipsis (cons_ne_nil _ _) hleft (by omega), nil_append]
    by_cases hnil : right = []
    · subst hnil
      rw [if_pos (hempty.2 rfl), Option.bind_some]
      rw [append_nil] at hexpand
      exact hexpand
    · rw [if_neg (mt hempty.1 hnil), parseGroups_text hnil hright (by omega), Option.bind_some]
      exact hexpand

/-- The text of an address that is not an IPv4 one. -/
theorem parseIP_groups (h : ip.to4 = none) : parseIP ip.toText = some ip := by
  have htext : ip.toText = (longestZeroRun ip.groups).elim (hexGroups ip.groups) fun run =>
      hexGroups (ip.groups.take run.1) ++ "::" ++ hexGroups (ip.groups.drop (run.1 + run.2)) := by
    unfold IP.toText
    rw [h]
    cases longestZeroRun ip.groups <;> rfl
  cases hrun : longestZeroRun ip.groups with
  | none =>
    rw [hrun, Option.elim_none] at htext
    have hlist : ip.toText.toList = groupsText ip.groups := by rw [htext, toList_hexGroups]
    have hgroups : GroupText ip.toText.toList := hlist ▸ groupText_groups _
    have hcolon : ':' ∈ ip.toText.toList := by
      obtain ⟨g, rest, hcons⟩ := exists_cons_of_length_eq_add_one ip.length_eq
      have hrest : rest.length = 7 := by
        have hlength := ip.length_eq
        rw [hcons, length_cons] at hlength
        omega
      obtain ⟨g', rest', hcons'⟩ := exists_cons_of_length_eq_add_one hrest
      rw [hlist, hcons, hcons', groupsText]
      exact mem_append_right _ mem_cons_self
    rw [parseIP_groupText hgroups hcolon, hlist, parseIPv6_full ip.length_eq ip.bounded]
    exact mkIP_groups ip
  | some run =>
    obtain ⟨i, n⟩ := run
    rw [hrun, Option.elim_some] at htext
    have hlist : ip.toText.toList =
        groupsText (ip.groups.take i) ++ ':' :: ':' :: groupsText (ip.groups.drop (i + n)) := by
      rw [htext, String.toList_append, String.toList_append, toList_hexGroups, toList_hexGroups, append_assoc]
      rfl
    have hgroups : GroupText ip.toText.toList := by
      rw [hlist]
      intro c hc
      rcases mem_append.1 hc with hc | hc
      · exact groupText_groups _ c hc
      · rcases mem_cons.1 hc with rfl | hc
        · exact .inl rfl
        · rcases mem_cons.1 hc with rfl | hc
          · exact .inl rfl
          · exact groupText_groups _ c hc
    have hcolon : ':' ∈ ip.toText.toList := by
      rw [hlist]
      exact mem_append_right _ mem_cons_self
    have haround := groups_around hrun
    have hlength : (ip.groups.take i).length + n + (ip.groups.drop (i + n)).length = 8 := by
      have hall := congrArg List.length haround
      rw [length_append, length_append, length_replicate, ip.length_eq] at hall
      exact hall.symm
    have hread := parseIPv6_ellipsis (longestZeroRun_spec hrun).1 hlength
      (fun g hg => ip.bounded g (mem_of_mem_take hg)) (fun g hg => ip.bounded g (mem_of_mem_drop hg))
    rw [parseIP_groupText hgroups hcolon, hlist, hread, ← haround]
    exact mkIP_groups ip

/-- What is read as an address is not empty. -/
theorem ne_empty_of_parseIP {s : String} {ip : IP} (h : parseIP s = some ip) : s ≠ "" := by
  rintro rfl
  have hnothing : parseIP "" = none := by decide
  rw [hnothing] at h
  cases h

/-- **An address is read back from its text.** -/
theorem parseIP_toText (ip : IP) : parseIP ip.toText = some ip := by
  cases h : ip.to4 with
  | none => exact parseIP_groups h
  | some octets =>
    obtain ⟨a, b, c, d⟩ := octets
    exact parseIP_dotted h

/-- The characters of an address: percent sign, dot, digits and colon, and the letters to `f`. -/
def addressRanges : List (Nat × Nat) := [(0x25, 0x25), (0x2e, 0x2e), (0x30, 0x3a), (0x41, 0x46), (0x61, 0x66)]

theorem lowerRanges_address :
    (lowerRanges.all fun run => Nat.blt run.2.1 0x80 || (Nat.ble 0x80 run.1 && addressRanges.all fun range =>
      Nat.blt (imageLast run) range.1 || Nat.blt range.2 (imageFirst run))) = true := by
  decide +kernel

/-- **Beyond ASCII nothing becomes a character of an address.** -/
theorem lowerChar_not_address (h : 0x80 ≤ c.toNat) {range : Nat × Nat} (hrange : range ∈ addressRanges) :
    ¬ (range.1 ≤ (lowerChar c).toNat ∧ (lowerChar c).toNat ≤ range.2) := by
  have hsmall : range.2 < 0x80 := by
    revert hrange range
    decide
  rw [lowerChar_toNat]
  rcases mapCase_cases lowerRanges c.toNat with hfixed | ⟨run, hmem, hrun, hmap⟩
  · rw [hfixed]
    omega
  · have hall := all_eq_true.1 lowerRanges_address run hmem
    obtain ⟨hfirst, hlast⟩ := inRun_image hrun
    obtain ⟨hlo, hhi, -⟩ := inRun_iff.1 hrun
    rw [Bool.or_eq_true, Bool.and_eq_true, Nat.blt_eq, Nat.ble_eq, all_eq_true] at hall
    rcases hall with hascii | ⟨-, hranges⟩
    · omega
    · have havoid := hranges range hrange
      rw [Bool.or_eq_true, Nat.blt_eq, Nat.blt_eq] at havoid
      rw [hmap]
      omega

/-- A property of characters that only characters of addresses have, and that ASCII lowering keeps. -/
theorem lowerChar_address {α : Type} {f : Char → α} {z : α}
    (hascii : ∀ n < 0x80, f (lowerChar (Char.ofNat n)) = f (Char.ofNat n))
    (hnone : ∀ c : Char, (∀ range ∈ addressRanges, ¬ (range.1 ≤ c.toNat ∧ c.toNat ≤ range.2)) → f c = z)
    (c : Char) : f (lowerChar c) = f c := by
  by_cases h : c.toNat < 0x80
  · have hc := hascii c.toNat h
    rwa [Char.ofNat_toNat] at hc
  · rw [Nat.not_lt] at h
    rw [hnone _ fun range hrange => lowerChar_not_address h hrange, hnone c fun range hrange => ?_]
    have hsmall : range.2 < 0x80 := by
      revert hrange range
      decide
    omega

theorem hexDigit_lowerChar (c : Char) : hexDigit (lowerChar c) = hexDigit c := by
  refine lowerChar_address (z := none) (by decide +kernel) (fun c hc => ?_) c
  have hdigits := hc (0x30, 0x3a) (by decide)
  have hcapitals := hc (0x41, 0x46) (by decide)
  have hsmall := hc (0x61, 0x66) (by decide)
  unfold hexDigit
  rw [if_neg, if_neg, if_neg]
  · exact fun h => hcapitals h
  · exact fun h => hsmall h
  · exact fun h => hdigits ⟨h.1, Nat.le_succ_of_le h.2⟩

theorem decDigit_lowerChar (c : Char) : decDigit (lowerChar c) = decDigit c := by
  refine lowerChar_address (z := none) (by decide +kernel) (fun c hc => ?_) c
  have hdigits := hc (0x30, 0x3a) (by decide)
  unfold decDigit
  rw [if_neg]
  exact fun h => hdigits ⟨h.1, Nat.le_succ_of_le h.2⟩

/-- Separators and the digit zero stay what they are, and nothing becomes one. -/
theorem lowerChar_eq_iff {x : Char} (hx : x = '.' ∨ x = ':' ∨ x = '%' ∨ x = '0') (c : Char) :
    lowerChar c = x ↔ c = x := by
  have hdecide : decide (lowerChar c = x) = decide (c = x) := by
    refine lowerChar_address (f := fun c => decide (c = x)) (z := false) ?_ (fun c hc => ?_) c
    · rcases hx with rfl | rfl | rfl | rfl <;> decide +kernel
    · rw [decide_eq_false_iff_not]
      rintro rfl
      rcases hx with rfl | rfl | rfl | rfl
      · exact hc (0x2e, 0x2e) (by decide) (by decide)
      · exact hc (0x30, 0x3a) (by decide) (by decide)
      · exact hc (0x25, 0x25) (by decide) (by decide)
      · exact hc (0x30, 0x3a) (by decide) (by decide)
  exact decide_eq_decide.1 hdecide

section Lower

theorem mapM_lower (l : List Char) : (l.map lowerChar).mapM decDigit = l.mapM decDigit := by
  rw [mapM_map]
  exact congrArg (fun f => l.mapM f) (funext decDigit_lowerChar)

theorem parseOctet_lower (l : List Char) : parseOctet (l.map lowerChar) = parseOctet l := by
  cases l with
  | nil => rfl
  | cons c rest =>
    have hdigits := mapM_lower (c :: rest)
    rw [map_cons] at hdigits ⊢
    unfold parseOctet
    dsimp only
    rw [hdigits]
    simp only [ne_eq, map_eq_nil_iff, lowerChar_eq_iff (.inr (.inr (.inr rfl)))]

theorem splitOn_lower (l : List Char) :
    (l.map lowerChar).splitOn '.' = (l.splitOn '.').map (List.map lowerChar) := by
  induction hn : l.length using Nat.strong_induction_on generalizing l with
  | _ n ih =>
    have hdot : ∀ a : List Char, '.' ∉ a → '.' ∉ a.map lowerChar := by
      intro a ha hmem
      obtain ⟨c, hc, heq⟩ := mem_map.1 hmem
      rw [lowerChar_eq_iff (.inl rfl)] at heq
      exact ha (heq ▸ hc)
    by_cases hmem : '.' ∈ l
    · obtain ⟨a, r, rfl, ha⟩ := eq_append_cons_of_mem hmem
      have hlower : lowerChar '.' = '.' := (lowerChar_eq_iff (.inl rfl) '.').2 rfl
      have hshort : r.length < n := by
        rw [← hn, length_append, length_cons]
        omega
      rw [splitOn_append_cons_self_of_not_mem ha, map_append, map_cons, hlower,
        splitOn_append_cons_self_of_not_mem (hdot a ha), ih _ hshort r rfl, map_cons]
    · rw [splitOn_eq_singleton hmem, splitOn_eq_singleton (hdot l hmem)]
      rfl

theorem parseIPv4Fields_lower (l : List Char) : parseIPv4Fields (l.map lowerChar) = parseIPv4Fields l := by
  unfold parseIPv4Fields
  rw [splitOn_lower, mapM_map]
  have hoctets : parseOctet ∘ List.map lowerChar = parseOctet := funext parseOctet_lower
  rw [hoctets]

theorem spanHex_lower (l : List Char) :
    spanHex (l.map lowerChar) = ((spanHex l).1.map lowerChar, (spanHex l).2.map lowerChar) := by
  have hsame : (fun c => (hexDigit c).isSome) ∘ lowerChar = fun c => (hexDigit c).isSome := by
    funext c
    exact congrArg Option.isSome (hexDigit_lowerChar c)
  unfold spanHex
  rw [span_eq_takeWhile_dropWhile, span_eq_takeWhile_dropWhile, takeWhile_map, hsame,
    dropWhile_map fun c => congrFun hsame c]

theorem parseGroups_lower (fuel : Nat) (acc : List Nat) (ell : Option Nat) (l : List Char) :
    parseGroups fuel acc ell (l.map lowerChar) = parseGroups fuel acc ell l := by
  induction fuel generalizing acc ell l with
  | zero =>
    unfold parseGroups
    simp only [map_eq_nil_iff]
  | succ fuel ih =>
    have hvalues : ((spanHex l).1.map lowerChar).filterMap hexDigit = (spanHex l).1.filterMap hexDigit := by
      rw [filterMap_map]
      exact congrArg (fun f => (spanHex l).1.filterMap f) (funext hexDigit_lowerChar)
    have hdot : ((spanHex l).2.map lowerChar).head? = some '.' ↔ (spanHex l).2.head? = some '.' := by
      rw [head?_map, Option.map_eq_some_iff]
      simp only [lowerChar_eq_iff (.inl rfl), exists_eq_right]
    rw [parseGroups, parseGroups, spanHex_lower, parseIPv4Fields_lower]
    dsimp only
    simp only [map_eq_nil_iff, length_map, hdot, hvalues]
    congr 2
    -- what follows the group
    rcases (spanHex l).2 with _ | ⟨c, _ | ⟨d, rest⟩⟩
    · rfl
    · rfl
    · simp only [map_cons, ne_eq, lowerChar_eq_iff (.inr (.inl rfl)), map_eq_nil_iff, ih]
      have hnext := ih (acc ++ [((spanHex l).1.filterMap hexDigit).foldl (fun v d => v * 16 + d) 0])
        ell (d :: rest)
      rw [map_cons] at hnext
      rw [hnext]

theorem parseIPv6_lower (l : List Char) : parseIPv6 (l.map lowerChar) = parseIPv6 l := by
  have hcolon : lowerChar ':' = ':' := (lowerChar_eq_iff (.inr (.inl rfl)) ':').2 rfl
  by_cases h : ∃ rest, l = ':' :: ':' :: rest
  · obtain ⟨rest, rfl⟩ := h
    rw [map_cons, map_cons, hcolon]
    show (if rest.map lowerChar = [] then some (List.replicate 8 0) else
        (parseGroups 8 [] (some 0) (rest.map lowerChar)).bind fun (g, ell) => expandEllipsis g ell) =
      if rest = [] then some (List.replicate 8 0) else
        (parseGroups 8 [] (some 0) rest).bind fun (g, ell) => expandEllipsis g ell
    rw [parseGroups_lower]
    simp only [map_eq_nil_iff]
  · have hother : ∀ l : List Char, (¬ ∃ rest, l = ':' :: ':' :: rest) →
        parseIPv6 l = (parseGroups 8 [] none l).bind fun (g, ell) => expandEllipsis g ell := by
      intro l hl
      unfold parseIPv6
      split
      · exact absurd ⟨_, rfl⟩ hl
      · rfl
    have hmapped : ¬ ∃ rest, l.map lowerChar = ':' :: ':' :: rest := by
      rintro ⟨rest, hrest⟩
      obtain ⟨c, l', rfl, hc, hl'⟩ := map_eq_cons_iff.1 hrest
      obtain ⟨d, l'', rfl, hd, -⟩ := map_eq_cons_iff.1 hl'
      rw [lowerChar_eq_iff (.inr (.inl rfl))] at hc hd
      exact h ⟨l'', by rw [hc, hd]⟩
    rw [hother _ h, hother _ hmapped, parseGroups_lower]

/-- **The case of a text does not matter to `net.ParseIP`.** -/
theorem parseIP_toLower (s : String) : parseIP (toLower s) = parseIP s := by
  have hlist : (toLower s).toList = s.toList.map lowerChar := by
    rw [toLower, String.toList_ofList]
  have hseparator : ∀ c, (lowerChar c = '.' ∨ lowerChar c = ':' ∨ lowerChar c = '%') ↔
    (c = '.' ∨ c = ':' ∨ c = '%') := by
    intro c
    rw [lowerChar_eq_iff (.inl rfl), lowerChar_eq_iff (.inr (.inl rfl)),
      lowerChar_eq_iff (.inr (.inr (.inl rfl)))]
  have hfind : (s.toList.map lowerChar).find? (fun c => decide (c = '.' ∨ c = ':' ∨ c = '%')) =
      s.toList.find? (fun c => decide (c = '.' ∨ c = ':' ∨ c = '%')) := by
    rw [find?_map]
    have hsame : (fun c => decide (c = '.' ∨ c = ':' ∨ c = '%')) ∘ lowerChar =
        fun c => decide (c = '.' ∨ c = ':' ∨ c = '%') := by
      funext c
      exact decide_eq_decide.2 (hseparator c)
    rw [hsame]
    cases hfound : s.toList.find? (fun c => decide (c = '.' ∨ c = ':' ∨ c = '%')) with
    | none => rfl
    | some c =>
      have hc := find?_some hfound
      rw [decide_eq_true_eq] at hc
      rw [Option.map_some, Option.some.injEq]
      rcases hc with rfl | rfl | rfl <;> decide
  have hzone : (s.toList.map lowerChar).contains '%' = s.toList.contains '%' := by
    rw [Bool.eq_iff_iff, contains_iff_mem, contains_iff_mem, mem_map]
    simp only [lowerChar_eq_iff (.inr (.inr (.inl rfl))), exists_eq_right]
  unfold parseIP
  dsimp only
  rw [hlist, hfind, parseIPv4Fields_lower, parseIPv6_lower, hzone]

end Lower

theorem isSpace_of_address (hc : c = '.' ∨ c = ':' ∨ (hexDigit c).isSome = true) : isSpace c = false := by
  by_cases h : c.toNat < 0x80
  · have hall : ∀ n < 0x80, (Char.ofNat n = '.' ∨ Char.ofNat n = ':' ∨ (hexDigit (Char.ofNat n)).isSome = true) →
        isSpace (Char.ofNat n) = false := by decide +kernel
    have hthis := hall c.toNat h
    rw [Char.ofNat_toNat] at hthis
    exact hthis hc
  · rcases hc with rfl | rfl | hc
    · exact absurd (by decide) h
    · exact absurd (by decide) h
    · refine absurd hc ?_
      rw [hexDigit, if_neg, if_neg, if_neg]
      · decide
      · exact fun hle => h (lt_of_le_of_lt hle.2 (by decide))
      · exact fun hle => h (lt_of_le_of_lt hle.2 (by decide))
      · exact fun hle => h (lt_of_le_of_lt hle.2 (by decide))

/-- No spaces, and no dot at the end. -/
def AddressText (l : List Char) : Prop := (∀ c ∈ l, isSpace c = false) ∧ l.getLast? ≠ some '.'

theorem addressText_append {r : List Char} (hl : ∀ c ∈ l, isSpace c = false) (hne : r ≠ []) (hr : AddressText r) :
    AddressText (l ++ r) := by
  refine ⟨fun c hc => ?_, ?_⟩
  · rcases mem_append.1 hc with hc | hc
    · exact hl c hc
    · exact hr.1 c hc
  · rw [getLast?_append_of_ne_nil _ hne]
    exact hr.2

theorem addressText_of_notMem (hl : ∀ c ∈ l, isSpace c = false) (hdot : '.' ∉ l) : AddressText l :=
  ⟨hl, fun hlast => hdot (mem_of_getLast? hlast)⟩

theorem isSome_of_mapM {α β : Type} {f : α → Option β} {l : List α} {values : List β}
    (h : l.mapM f = some values) :
    ∀ a ∈ l, (f a).isSome = true := by
  induction l generalizing values with
  | nil => exact fun a ha => by cases ha
  | cons b l ih =>
    rw [mapM_cons] at h
    obtain ⟨v, hv, h⟩ := Option.bind_eq_some_iff.1 h
    obtain ⟨rest, hrest, -⟩ := Option.bind_eq_some_iff.1 h
    intro a ha
    rcases mem_cons.1 ha with rfl | ha
    · rw [hv]
      rfl
    · exact ih hrest a ha

theorem parseOctet_digits (h : (parseOctet l).isSome = true) : l ≠ [] ∧ ∀ c ∈ l, (decDigit c).isSome = true := by
  unfold parseOctet at h
  cases l with
  | nil => cases h
  | cons c rest =>
    obtain ⟨v, hv⟩ := Option.isSome_iff_exists.1 h
    obtain ⟨digits, hdigits, -⟩ := Option.bind_eq_some_iff.1 hv
    exact ⟨cons_ne_nil _ _, isSome_of_mapM hdigits⟩

theorem hexDigit_of_decDigit (h : (decDigit c).isSome = true) : (hexDigit c).isSome = true := by
  unfold decDigit at h
  split at h
  · rename_i hrange
    rw [hexDigit, if_pos hrange]
    rfl
  · cases h

theorem parseIPv4Fields_text {octets : Nat × Nat × Nat × Nat} (h : parseIPv4Fields l = some octets) :
    AddressText l := by
  obtain ⟨values, hvalues, -⟩ := Option.bind_eq_some_iff.1 h
  have hparts := isSome_of_mapM hvalues
  refine ⟨fun c hc => ?_, fun hlast => ?_⟩
  · have hjoin : ['.'].intercalate (l.splitOn '.') = l := intercalate_splitOn '.'
    rw [← hjoin] at hc
    rcases intercalate_mem hc with rfl | ⟨part, hpart, hc⟩
    · decide
    · exact isSpace_of_address (.inr (.inr
        (hexDigit_of_decDigit ((parseOctet_digits (hparts part hpart)).2 c hc))))
  · -- a dot at the end leaves an empty octet behind it
    obtain ⟨front, rfl⟩ := getLast?_eq_some_iff.1 hlast
    refine (parseOctet_digits (hparts [] ?_)).1 rfl
    rw [splitOn_append_cons_self, splitOn_nil]
    exact mem_append_right _ (mem_singleton_self _)

theorem parseGroups_address {fuel : Nat} {acc : List Nat} {ell : Option Nat} {found : List Nat × Option Nat}
    (h : parseGroups fuel acc ell l = some found) : AddressText l := by
  induction fuel generalizing acc ell l found with
  | zero =>
    unfold parseGroups at h
    split at h
    · rename_i hnil
      rw [hnil]
      exact addressText_of_notMem (fun c hc => by cases hc) (by simp)
    · cases h
  | succ fuel ih =>
    have hsplit : (spanHex l).1 ++ (spanHex l).2 = l := by
      rw [spanHex, span_eq_takeWhile_dropWhile]
      exact takeWhile_append_dropWhile
    have hhex : ∀ c ∈ (spanHex l).1, (hexDigit c).isSome = true := by
      rw [spanHex, span_eq_takeWhile_dropWhile]
      exact fun c hc => mem_takeWhile_imp (p := fun c => (hexDigit c).isSome) hc
    have hdigits : ∀ c ∈ (spanHex l).1, isSpace c = false :=
      fun c hc => isSpace_of_address (.inr (.inr (hhex c hc)))
    unfold parseGroups at h
    dsimp only at h
    split at h
    · cases h
    split at h
    · split at h
      · cases h
      · obtain ⟨octets, hoctets, -⟩ := Option.bind_eq_some_iff.1 h
        exact parseIPv4Fields_text hoctets
    -- what follows the group
    rcases hrest : (spanHex l).2 with _ | ⟨c, _ | ⟨d, rest⟩⟩
    · rw [hrest, append_nil] at hsplit
      rw [← hsplit]
      exact addressText_of_notMem hdigits fun hdot => (ne_of_hexDigit (hhex _ hdot)).1 rfl
    · rw [hrest] at h
      cases h
    · rw [hrest] at h hsplit
      dsimp only at h
      split at h
      · cases h
      rename_i hcolon
      rw [not_not] at hcolon
      have hfront : ∀ e ∈ (spanHex l).1 ++ [':'], isSpace e = false := by
        intro e he
        rcases mem_append.1 he with he | he
        · exact hdigits e he
        · exact isSpace_of_address (.inr (.inl (mem_singleton.1 he)))
      rw [← hsplit, hcolon, append_cons]
      split at h
      · rename_i hdouble
        split at h
        · cases h
        · split at h
          · rename_i hnil
            rw [hnil, hdouble]
            refine addressText_append hfront (cons_ne_nil _ _) ⟨fun e he => ?_, by decide⟩
            rw [mem_singleton.1 he]
            decide
          · rename_i hne
            rw [hdouble, append_cons]
            refine addressText_append (fun e he => ?_) hne (ih h)
            rcases mem_append.1 he with he | he
            · exact hfront e he
            · exact isSpace_of_address (.inr (.inl (mem_singleton.1 he)))
      · exact addressText_append hfront (cons_ne_nil _ _) (ih h)

/-- **A text that is read as an address** has no spaces and does not end in a dot. -/
theorem parseIP_text {s : String} (h : parseIP s = some ip) : AddressText s.toList := by
  unfold parseIP at h
  dsimp only at h
  split at h
  · obtain ⟨octets, hoctets, -⟩ := Option.bind_eq_some_iff.1 h
    exact parseIPv4Fields_text hoctets
  · split at h
    · cases h
    obtain ⟨groups, hgroups, -⟩ := Option.bind_eq_some_iff.1 h
    unfold parseIPv6 at hgroups
    split at hgroups
    · rename_i rest hlist
      have hfront : ∀ c ∈ [':', ':'], isSpace c = false := by decide
      rw [hlist]
      split at hgroups
      · rename_i hnil
        rw [hnil]
        exact addressText_of_notMem hfront (by decide)
      · rename_i hne
        obtain ⟨found, hfound, -⟩ := Option.bind_eq_some_iff.1 hgroups
        exact addressText_append (l := [':', ':']) hfront hne (parseGroups_address hfound)
    · obtain ⟨found, hfound, -⟩ := Option.bind_eq_some_iff.1 hgroups
      exact parseGroups_address hfound
  · cases h

theorem toText_plain (ip : IP) :
    (∀ c ∈ ip.toText.toList, isSpace c = false) ∧ ip.toText.toList.getLast? ≠ some '.' :=
  parseIP_text (parseIP_toText ip)

end Go
