import FortigateDns.Go.Unicode
import Mathlib.Algebra.Group.Int.Defs
import Mathlib.Data.String.Basic

/-!
# The Go `strings` functions the controller uses

Each function works on the list of characters of its argument. `join_inj`: strings joined
with a one-character separator can be taken apart again when none of them contains it.
-/

namespace Go

open List

/-- Drops leading characters with property `p` from both ends. -/
def trimBoth (p : Char → Bool) (l : List Char) : List Char :=
  ((l.dropWhile p).reverse.dropWhile p).reverse

/-- `strings.TrimSpace`. -/
def trimSpace (s : String) : String := String.ofList (trimBoth isSpace s.toList)

/-- `strings.ToLower`. -/
def toLower (s : String) : String := String.ofList (s.toList.map lowerChar)

/-- `strings.ToUpper`. -/
def toUpper (s : String) : String := String.ofList (s.toList.map upperChar)

/-- `strings.EqualFold`. -/
def equalFold (s t : String) : Bool := s.toList.map foldChar == t.toList.map foldChar

/-- `strings.HasPrefix`. -/
def hasPrefix (s p : String) : Bool := p.toList.isPrefixOf s.toList

/-- `strings.HasSuffix`. -/
def hasSuffix (s p : String) : Bool := p.toList.isSuffixOf s.toList

/-- `strings.CutSuffix`: what stands before the suffix, or `none` when `s` lacks it. -/
def cutSuffix (s p : String) : Option String :=
  if hasSuffix s p then some (String.ofList (s.toList.take (s.toList.length - p.toList.length)))
  else none

/-- `strings.TrimSuffix`. -/
def trimSuffix (s p : String) : String := (cutSuffix s p).getD s

/-- `strings.TrimPrefix`. -/
def trimPrefix (s p : String) : String :=
  if hasPrefix s p then String.ofList (s.toList.drop p.toList.length) else s

/-- `strings.Split` with a one-character separator. -/
def split (sep : Char) (s : String) : List String := (s.toList.splitOn sep).map String.ofList

/-- `strconv.ParseInt` in base 10 for 64 bits. -/
def parseInt64 (s : String) : Option Int :=
  let (negative, digits) := match s.toList with
    | '+' :: rest => (false, rest)
    | '-' :: rest => (true, rest)
    | rest => (false, rest)
  if digits.isEmpty || !digits.all Char.isDigit then none
  else
    let magnitude : Int := Nat.ofDigitChars 10 digits 0
    let value := if negative then -magnitude else magnitude
    if -2 ^ 63 ≤ value ∧ value < 2 ^ 63 then some value else none

/-- `strings.Join`. -/
def join (sep : String) : List String → String
  | [] => ""
  | [s] => s
  | s :: t :: rest => s ++ sep ++ join sep (t :: rest)

/-- A digit of `strconv`. -/
def digit36 (n : Nat) : Char := Char.ofNat (if n < 10 then 48 + n else 87 + n)

/-- `strconv.FormatInt` in base 36, for numbers that are not negative. -/
def formatInt36 (n : Nat) : List Char :=
  if n < 36 then [digit36 n] else formatInt36 (n / 36) ++ [digit36 (n % 36)]

/-- The first separator splits a list of characters in one way only. -/
theorem append_sep_inj {c : Char} {a a' r r' : List Char} (ha : c ∉ a) (ha' : c ∉ a')
    (h : a ++ c :: r = a' ++ c :: r') : a = a' ∧ r = r' := by
  induction a generalizing a' with
  | nil =>
    cases a' with
    | nil => simpa using h
    | cons x a' =>
      simp only [nil_append, cons_append, List.cons.injEq] at h
      exact absurd (h.1 ▸ mem_cons_self) ha'
  | cons x a ih =>
    cases a' with
    | nil =>
      simp only [nil_append, cons_append, List.cons.injEq] at h
      exact absurd (h.1 ▸ mem_cons_self) ha
    | cons y a' =>
      simp only [cons_append, List.cons.injEq] at h
      obtain ⟨h1, h2⟩ := ih (fun hm => ha (mem_cons_of_mem _ hm))
        (fun hm => ha' (mem_cons_of_mem _ hm)) h.2
      exact ⟨by rw [h.1, h1], h2⟩

theorem toList_join_cons (sep s t : String) (rest : List String) :
    (join sep (s :: t :: rest)).toList = s.toList ++ (sep.toList ++ (join sep (t :: rest)).toList) := by
  simp [join, String.toList_append]

/-- **`Join` is injective** on non-empty lists of strings without the separator. -/
theorem join_inj {sep : String} {c : Char} (hsep : sep.toList = [c]) :
    ∀ {l l' : List String}, l ≠ [] → l' ≠ [] → (∀ s ∈ l, c ∉ s.toList) → (∀ s ∈ l', c ∉ s.toList) →
      join sep l = join sep l' → l = l' := by
  intro l
  induction l with
  | nil => intro l' h; exact absurd rfl h
  | cons s l ih =>
    intro l' _ hl' hs hs' heq
    cases l' with
    | nil => exact absurd rfl hl'
    | cons s' l' =>
      have hcs := hs s mem_cons_self
      have hcs' := hs' s' mem_cons_self
      have heq' := congrArg String.toList heq
      cases l with
      | nil =>
        cases l' with
        | nil => simpa [join] using heq
        | cons t' l' =>
          -- the separator occurs on the right only
          rw [toList_join_cons, hsep] at heq'
          simp only [join] at heq'
          exact absurd (heq' ▸ (by simp)) hcs
      | cons t l =>
        cases l' with
        | nil =>
          rw [toList_join_cons, hsep] at heq'
          simp only [join] at heq'
          exact absurd (heq' ▸ (by simp)) hcs'
        | cons t' l' =>
          rw [toList_join_cons, toList_join_cons, hsep] at heq'
          obtain ⟨h1, h2⟩ := append_sep_inj hcs hcs' heq'
          have := ih (by simp) (by simp) (fun x hx => hs x (mem_cons_of_mem _ hx))
            (fun x hx => hs' x (mem_cons_of_mem _ hx)) (String.toList_inj.1 h2)
          rw [String.toList_inj.1 h1, this]

end Go
