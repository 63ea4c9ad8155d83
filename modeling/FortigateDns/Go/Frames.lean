import FortigateDns.Go.Sha256
import FortigateDns.Go.Sort
import Mathlib.Data.List.Forall2

/-!
# Framed parts of a byte stream

A stream that is hashed part by part identifies its parts only if every part can be told from
what follows it.

* `framing_of_length`: **a length in front of a part frames it**, if the length is itself framed.
* `framing_decimal`, `framing_bytesBE`: a decimal length up to a colon; a length of fixed width.
* `Framing.flatMap_inj`: **the sequence of parts is determined**, however many there are.
-/

namespace Go

open List

variable {n : Nat} {c : Char}

/-- A byte. -/
abbrev Byte := Fin 256

/-- The byte of an ASCII character. -/
def byteOf (c : Char) : Byte := Fin.ofNat 256 c.toNat

/-- `[]byte(s)` of an ASCII text. -/
def asciiBytes (s : String) : List Byte := s.toList.map byteOf

/-- `encode` marks where the values of `P` end. -/
def Framing {α β : Type} (P : α → Prop) (encode : α → List β) : Prop :=
  ∀ a b rest rest', P a → P b → encode a ++ rest = encode b ++ rest' → a = b ∧ rest = rest'

section Framing

variable {α β γ : Type} {P : α → Prop} {Q : γ → Prop} {encode : α → List β} {encode' : γ → List β}

theorem Framing.pair (h : Framing P encode) (h' : Framing Q encode') :
    Framing (fun p : α × γ => P p.1 ∧ Q p.2) fun p => encode p.1 ++ encode' p.2 := by
  rintro ⟨a, c⟩ ⟨b, d⟩ rest rest' ⟨ha, hc⟩ ⟨hb, hd⟩ heq
  rw [append_assoc, append_assoc] at heq
  obtain ⟨rfl, hrest⟩ := h a b _ _ ha hb heq
  obtain ⟨rfl, hrest'⟩ := h' c d _ _ hc hd hrest
  exact ⟨rfl, hrest'⟩

/-- **A sequence of framed parts is determined by the stream.** -/
theorem Framing.flatMap_inj (h : Framing P encode) (hne : ∀ a, encode a ≠ []) {l l' : List α} (hl : ∀ a ∈ l, P a)
    (hl' : ∀ a ∈ l', P a) (heq : l.flatMap encode = l'.flatMap encode) : l = l' := by
  induction l generalizing l' with
  | nil =>
    cases l' with
    | nil => rfl
    | cons b l' =>
      rw [flatMap_nil, flatMap_cons, eq_comm, append_eq_nil_iff] at heq
      exact absurd heq.1 (hne b)
  | cons a l ih =>
    cases l' with
    | nil =>
      rw [flatMap_nil, flatMap_cons, append_eq_nil_iff] at heq
      exact absurd heq.1 (hne a)
    | cons b l' =>
      rw [flatMap_cons, flatMap_cons] at heq
      obtain ⟨rfl, hrest⟩ := h a b _ _ (hl a mem_cons_self) (hl' b mem_cons_self) heq
      rw [ih (fun x hx => hl x (mem_cons_of_mem _ hx)) (fun x hx => hl' x (mem_cons_of_mem _ hx)) hrest]

/-- **A framed length in front of a part frames the part**, with any fixed end behind it. -/
theorem framing_of_length {N : Nat → Prop} {header : Nat → List β} (h : Framing N header) (fin : List β) :
    Framing (fun value : List β => N value.length) fun value => header value.length ++ value ++ fin := by
  intro a b rest rest' ha hb heq
  simp only [append_assoc] at heq
  obtain ⟨hlength, hvalue⟩ := h a.length b.length _ _ ha hb heq
  obtain ⟨rfl, htail⟩ := append_inj hvalue hlength
  exact ⟨rfl, append_cancel_left htail⟩

/-- Texts without a separator are framed by it. -/
theorem framing_of_separator {sep : β} (hsep : ∀ a, P a → sep ∉ encode a)
    (hinj : ∀ a b, P a → P b → encode a = encode b → a = b) : Framing P fun a => encode a ++ [sep] := by
  intro a b rest rest' ha hb heq
  -- the first separator of the stream is the one behind the value
  have hcut : ∀ l m r r' : List β, sep ∉ l → sep ∉ m → l ++ sep :: r = m ++ sep :: r' → l = m ∧ r = r' := by
    intro l
    induction l with
    | nil =>
      intro m r r' _ hm h
      cases m with
      | nil => exact ⟨rfl, (List.cons.inj h).2⟩
      | cons x m => exact absurd ((List.cons.inj h).1 ▸ mem_cons_self) hm
    | cons y l ih =>
      intro m r r' hl hm h
      cases m with
      | nil => exact absurd ((List.cons.inj h).1 ▸ mem_cons_self) hl
      | cons x m =>
        obtain ⟨rfl, htail⟩ := List.cons.inj h
        obtain ⟨rfl, hr⟩ := ih m r r' (fun hin => hl (mem_cons_of_mem _ hin))
          (fun hin => hm (mem_cons_of_mem _ hin)) htail
        exact ⟨rfl, hr⟩
  rw [append_assoc, append_assoc] at heq
  obtain ⟨henc, hrest⟩ := hcut _ _ _ _ (hsep a ha) (hsep b hb) heq
  exact ⟨hinj a b ha hb henc, hrest⟩

end Framing

/-- `strconv.Itoa` of a length. -/
def decimal (n : Nat) : List Byte := asciiBytes n.repr

theorem isDigit_decimal (h : c ∈ n.repr.toList) : c.isDigit := by
  rw [Nat.toList_repr] at h
  exact Nat.isDigit_of_mem_toDigits (by decide) (by decide) h

theorem byteOf_inj {d : Char} (hc : c.toNat < 256) (hd : d.toNat < 256) (h : byteOf c = byteOf d) : c = d := by
  unfold byteOf at h
  rw [Fin.ext_iff, Fin.val_ofNat, Fin.val_ofNat, Nat.mod_eq_of_lt hc, Nat.mod_eq_of_lt hd] at h
  exact Char.ext (UInt32.toNat_inj.1 h)

theorem toNat_lt_of_isDigit (h : c.isDigit) : c.toNat < 58 := by
  have hle := (Char.isDigit_iff_toNat.1 h).2
  exact Nat.lt_succ_of_le hle

theorem decimal_inj {m : Nat} (h : decimal m = decimal n) : m = n := by
  have hsmall : ∀ (n : Nat), ∀ c ∈ n.repr.toList, c.toNat < 256 := fun n c hc =>
    (toNat_lt_of_isDigit (isDigit_decimal hc)).trans (by decide)
  have hdigits : m.repr.toList = n.repr.toList := by
    rw [← forall₂_eq_eq_eq]
    exact forall₂_of_keys h fun c hc d hd => byteOf_inj (hsmall m c hc) (hsmall n d hd)
  rw [Nat.toList_repr, Nat.toList_repr] at hdigits
  have hread := congrArg (Nat.ofDigitChars 10 · 0) hdigits
  rwa [Nat.ofDigitChars_toDigits (by decide) (by decide),
    Nat.ofDigitChars_toDigits (by decide) (by decide)] at hread

theorem colon_notMem_decimal (n : Nat) : byteOf ':' ∉ decimal n := by
  intro h
  obtain ⟨c, hc, heq⟩ := mem_map.1 h
  have hlt := toNat_lt_of_isDigit (isDigit_decimal hc)
  have : c = ':' := byteOf_inj (hlt.trans (by decide)) (by decide) heq
  subst this
  exact absurd hlt (by decide)

/-- **A decimal length ends at its colon.** -/
theorem framing_decimal : Framing (fun _ => True) fun n => decimal n ++ [byteOf ':'] :=
  framing_of_separator (fun n _ => colon_notMem_decimal n) fun _ _ _ _ => decimal_inj

/-- The `n` big-endian bytes of a number. -/
def bigEndian (n x : Nat) : List Byte := (Sha256.bytesBE n x).map (Fin.ofNat 256)

theorem length_bigEndian (n x : Nat) : (bigEndian n x).length = n := by
  unfold bigEndian
  rw [length_map]
  induction n with
  | zero => rfl
  | succ n ih => exact congrArg Nat.succ ih

theorem bigEndian_inj {x y : Nat} (h : bigEndian n x = bigEndian n y) : x % 256 ^ n = y % 256 ^ n := by
  induction n with
  | zero => rw [Nat.pow_zero, Nat.mod_one, Nat.mod_one]
  | succ n ih =>
    obtain ⟨hhead, htail⟩ := List.cons.inj h
    have hbyte : x / 256 ^ n % 256 = y / 256 ^ n % 256 := by
      rw [Fin.ext_iff, Fin.val_ofNat, Fin.val_ofNat, Nat.mod_mod, Nat.mod_mod] at hhead
      exact hhead
    rw [Nat.mod_pow_succ, Nat.mod_pow_succ, ih htail, hbyte]

/-- **A length of fixed width ends after that width.** -/
theorem framing_bytesBE (n : Nat) : Framing (fun x => x < 256 ^ n) (bigEndian n) := by
  intro x y rest rest' hx hy heq
  obtain ⟨hbytes, hrest⟩ := append_inj heq (by rw [length_bigEndian, length_bigEndian])
  have hmod := bigEndian_inj hbytes
  rw [Nat.mod_eq_of_lt hx, Nat.mod_eq_of_lt hy] at hmod
  exact ⟨hmod, hrest⟩

end Go
