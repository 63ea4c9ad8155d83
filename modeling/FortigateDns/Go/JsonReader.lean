import Mathlib.Data.List.Basic
import FortigateDns.Go.Json

/-!
# Reading JSON back

The reader behind `encoding/json.Unmarshal`, for strings, integers, booleans, slices and objects. White
space between tokens and surrogate pairs are left out: the encoder writes neither.

* `readString_string`, `readsBack`: **what the encoder writes is read back**, whatever follows.
-/

namespace Go

open List

variable {n : Nat}

namespace Json

/-- The value of a hexadecimal digit. -/
def hexValue (c : Char) : Option Nat :=
  if '0' ≤ c ∧ c ≤ '9' then some (c.toNat - 48)
  else if 'a' ≤ c ∧ c ≤ 'f' then some (c.toNat - 87)
  else if 'A' ≤ c ∧ c ≤ 'F' then some (c.toNat - 55)
  else none

/-- The character of a one-letter escape. -/
def unescape (e : Char) : Option Char :=
  if e = '"' ∨ e = '\\' ∨ e = '/' then some e
  else if e = 'b' then some (Char.ofNat 8)
  else if e = 'f' then some (Char.ofNat 12)
  else if e = 'n' then some (Char.ofNat 10)
  else if e = 'r' then some (Char.ofNat 13)
  else if e = 't' then some (Char.ofNat 9)
  else none

/-- The character of four hexadecimal digits. -/
def readUnicode : List Char → Option (Char × List Char)
  | a :: b :: c :: d :: rest => do
    let a ← hexValue a
    let b ← hexValue b
    let c ← hexValue c
    let d ← hexValue d
    some (Char.ofNat (((a * 16 + b) * 16 + c) * 16 + d), rest)
  | _ => none

/-- One character of a string. -/
def readChar : List Char → Option (Char × List Char)
  | [] => none
  | c :: rest =>
    if c ≠ '\\' then some (c, rest)
    else
      match rest with
      | [] => none
      | e :: rest => if e = 'u' then readUnicode rest else (unescape e).map fun c => (c, rest)

/-- The characters up to the closing quote. -/
def readChars : Nat → List Char → Option (List Char × List Char)
  | 0, _ => none
  | n + 1, text =>
    if text.head? = some '"' then some ([], text.drop 1)
    else (readChar text).bind fun (c, rest) => (readChars n rest).map fun (cs, rest) => (c :: cs, rest)

/-- A string, behind its opening quote. -/
def readString (text : List Char) : Option (String × List Char) :=
  (readChars text.length text).map fun (cs, rest) => (String.ofList cs, rest)

theorem hexValue_hexDigit {k : Nat} (h : k < 16) : hexValue (Sha256.hexDigit k) = some k := by
  have hall : ∀ k < 16, hexValue (Sha256.hexDigit k) = some k := by decide
  exact hall k h

theorem readUnicode_digits (h : n < 65536) (rest : List Char) :
    readUnicode (Sha256.hexDigit (n / 4096 % 16) :: Sha256.hexDigit (n / 256 % 16) ::
      Sha256.hexDigit (n / 16 % 16) :: Sha256.hexDigit (n % 16) :: rest) = some (Char.ofNat n, rest) := by
  have hn : ((n / 4096 % 16 * 16 + n / 256 % 16) * 16 + n / 16 % 16) * 16 + n % 16 = n := by omega
  rw [readUnicode, hexValue_hexDigit (Nat.mod_lt _ (by decide)), hexValue_hexDigit (Nat.mod_lt _ (by decide)),
    hexValue_hexDigit (Nat.mod_lt _ (by decide)), hexValue_hexDigit (Nat.mod_lt _ (by decide))]
  simp only [Option.bind_eq_bind, Option.bind_some, hn]

theorem eq_ofNat_of_toNat {c : Char} (h : c.toNat = n) : c = Char.ofNat n := by
  rw [← h, Char.ofNat_toNat]

/-- **The escape of a character is read as the character**, and does not end the string. -/
theorem readChar_escape (c : Char) (rest : List Char) :
    readChar (escape c ++ rest) = some (c, rest) ∧ (escape c ++ rest).head? ≠ some '"' := by
  unfold escape
  dsimp only
  by_cases hquote : c = '"' ∨ c = '\\'
  · rw [if_pos hquote]
    rcases hquote with rfl | rfl
    · exact ⟨rfl, by simp⟩
    · exact ⟨rfl, by simp⟩
  · rw [if_neg hquote]
    push Not at hquote
    by_cases hb : c.toNat = 8
    · rw [if_pos hb, eq_ofNat_of_toNat hb]
      exact ⟨rfl, by simp⟩
    rw [if_neg hb]
    by_cases hf : c.toNat = 12
    · rw [if_pos hf, eq_ofNat_of_toNat hf]
      exact ⟨rfl, by simp⟩
    rw [if_neg hf]
    by_cases hn : c.toNat = 10
    · rw [if_pos hn, eq_ofNat_of_toNat hn]
      exact ⟨rfl, by simp⟩
    rw [if_neg hn]
    by_cases hr : c.toNat = 13
    · rw [if_pos hr, eq_ofNat_of_toNat hr]
      exact ⟨rfl, by simp⟩
    rw [if_neg hr]
    by_cases ht : c.toNat = 9
    · rw [if_pos ht, eq_ofNat_of_toNat ht]
      exact ⟨rfl, by simp⟩
    rw [if_neg ht]
    by_cases hunicode : c.toNat < 32 ∨ c = '<' ∨ c = '>' ∨ c = '&' ∨ c.toNat = 0x2028 ∨ c.toNat = 0x2029
    · rw [if_pos hunicode]
      have hsmall : c.toNat < 65536 := by
        rcases hunicode with h | rfl | rfl | rfl | h | h
        · omega
        · decide
        · decide
        · decide
        · omega
        · omega
      refine ⟨?_, by simp⟩
      have := readUnicode_digits hsmall rest
      rw [Char.ofNat_toNat] at this
      exact this
    · rw [if_neg hunicode]
      refine ⟨?_, by simpa using hquote.1⟩
      show readChar (c :: rest) = some (c, rest)
      exact if_pos hquote.2

theorem length_flatMap_escape (s : List Char) : s.length ≤ (s.flatMap escape).length := by
  induction s with
  | nil => exact Nat.le_refl _
  | cons c s ih =>
    have hpos : 0 < (escape c).length := by
      rw [length_pos_iff_ne_nil]
      intro hnil
      have := (readChar_escape c []).1
      rw [hnil] at this
      cases this
    rw [flatMap_cons, length_append, length_cons]
    omega

theorem readChars_escape (s : List Char) (hn : s.length < n) (rest : List Char) :
    readChars n (s.flatMap escape ++ '"' :: rest) = some (s, rest) := by
  induction s generalizing n with
  | nil =>
    obtain ⟨n, rfl⟩ : ∃ m, n = m + 1 := ⟨n - 1, by simp at hn; omega⟩
    rfl
  | cons c s ih =>
    obtain ⟨n, rfl⟩ : ∃ m, n = m + 1 := ⟨n - 1, by simp at hn; omega⟩
    obtain ⟨hchar, hopen⟩ := readChar_escape c (s.flatMap escape ++ '"' :: rest)
    have hrest := ih (n := n) (by simpa using hn)
    unfold readChars
    rw [flatMap_cons, append_assoc, if_neg hopen, hchar, Option.bind_some]
    dsimp only
    rw [hrest]
    rfl

/-- **A string is read back.** -/
theorem readString_string (s : String) (rest : List Char) :
    ∃ text, string s = '"' :: text ∧ readString (text ++ rest) = some (s, rest) := by
  refine ⟨s.toList.flatMap escape ++ ['"'], rfl, ?_⟩
  have hlength := length_flatMap_escape s.toList
  unfold readString
  rw [append_assoc, singleton_append, readChars_escape s.toList _ rest]
  · simp
  · rw [length_append, length_cons]
    omega

/-- A JSON value. -/
inductive Value
  | string (s : String)
  | int (n : Int)
  | bool (b : Bool)
  | array (values : List Value)
  | object (fields : List (String × Value))

mutual

/-- The text of a value. -/
def render : Value → List Char
  | .string s => string s
  | .int n => int n
  | .bool b => bool b
  | .array values => '[' :: renderElements values ++ [']']
  | .object fields => '\x7b' :: renderFields fields ++ ['\x7d']

/-- Separated by commas. -/
def renderElements : List Value → List Char
  | [] => []
  | [v] => render v
  | v :: w :: rest => render v ++ ',' :: renderElements (w :: rest)

/-- Separated by commas. -/
def renderFields : List (String × Value) → List Char
  | [] => []
  | [(name, v)] => string name ++ ':' :: render v
  | (name, v) :: g :: rest => string name ++ ':' :: render v ++ ',' :: renderFields (g :: rest)

end

theorem renderElements_eq (values : List Value) : renderElements values = elements (values.map render) := by
  induction values with
  | nil => rfl
  | cons v rest ih =>
    cases rest with
    | nil => rfl
    | cons w rest =>
      rw [renderElements, ih]
      rfl

theorem renderFields_eq (l : List (String × Value)) :
    renderFields l = fields (l.map fun f => (f.1, render f.2)) := by
  induction l with
  | nil => rfl
  | cons f rest ih =>
    cases rest with
    | nil => rfl
    | cons g rest =>
      rw [renderFields, ih]
      rfl

@[simp] theorem render_string (s : String) : render (.string s) = string s := by rw [render]

@[simp] theorem render_int (n : Int) : render (.int n) = int n := by rw [render]

@[simp] theorem render_bool (b : Bool) : render (.bool b) = bool b := by rw [render]

/-- The text of a slice of encoded elements. -/
theorem render_array {α : Type} {encode : α → Value} {json : α → List Char} (h : ∀ a, render (encode a) = json a)
    (l : List α) : render (.array (l.map encode)) = array (l.map json) := by
  have hjson : render ∘ encode = json := funext h
  rw [render, renderElements_eq, map_map, hjson]
  rfl

theorem render_object (l : List (String × Value)) :
    render (.object l) = object (l.map fun f => (f.1, render f.2)) := by
  rw [render, renderFields_eq]
  rfl

/-- The digits at the front. -/
def readNat (text : List Char) : Option (Nat × List Char) :=
  if text.takeWhile Char.isDigit = [] then none
  else some (Nat.ofDigitChars 10 (text.takeWhile Char.isDigit) 0, text.dropWhile Char.isDigit)

/-- A number with an optional sign. -/
def readInt (text : List Char) : Option (Int × List Char) :=
  if text.head? = some '-' then (readNat (text.drop 1)).map fun (n, rest) => (-(n : Int), rest)
  else (readNat text).map fun (n, rest) => ((n : Int), rest)

/-- The separator behind a field name. -/
def readColon (text : List Char) : Option (List Char) :=
  if text.head? = some ':' then some (text.drop 1) else none

mutual

/-- One value, and what follows it. -/
def readValue : Nat → List Char → Option (Value × List Char)
  | 0, _ => none
  | _ + 1, [] => none
  | n + 1, c :: rest =>
    if c = '"' then (readString rest).map fun (s, rest) => (.string s, rest)
    else if c = '[' then
      if rest.head? = some ']' then some (.array [], rest.drop 1)
      else (readElements n rest).map fun (values, rest) => (.array values, rest)
    else if c = '\x7b' then
      if rest.head? = some '\x7d' then some (.object [], rest.drop 1)
      else (readFields n rest).map fun (fields, rest) => (.object fields, rest)
    else if c = 't' then if rest.take 3 = "rue".toList then some (.bool true, rest.drop 3) else none
    else if c = 'f' then if rest.take 4 = "alse".toList then some (.bool false, rest.drop 4) else none
    else (readInt (c :: rest)).map fun (n, rest) => (.int n, rest)

/-- The elements up to the closing bracket. -/
def readElements : Nat → List Char → Option (List Value × List Char)
  | 0, _ => none
  | n + 1, text =>
    (readValue n text).bind fun (v, rest) =>
      if rest.head? = some ',' then (readElements n (rest.drop 1)).map fun (vs, rest) => (v :: vs, rest)
      else if rest.head? = some ']' then some ([v], rest.drop 1)
      else none

/-- The fields up to the closing brace. -/
def readFields : Nat → List Char → Option (List (String × Value) × List Char)
  | 0, _ => none
  | n + 1, text =>
    if text.head? = some '"' then
      (readString (text.drop 1)).bind fun (name, rest) =>
      (readColon rest).bind fun rest =>
      (readValue n rest).bind fun (v, rest) =>
        if rest.head? = some ',' then (readFields n (rest.drop 1)).map fun (fs, rest) => ((name, v) :: fs, rest)
        else if rest.head? = some '\x7d' then some ([(name, v)], rest.drop 1)
        else none
    else none

end

/-- The text ends, or goes on with something that is not a digit. -/
def Ends (rest : List Char) : Prop := ∀ c ∈ rest.head?, c.isDigit = false

theorem readNat_repr (n : Nat) {rest : List Char} (h : Ends rest) :
    readNat (n.repr.toList ++ rest) = some (n, rest) := by
  have hdigits : ∀ c ∈ n.repr.toList, c.isDigit = true := by
    intro c hc
    rw [Nat.toList_repr] at hc
    exact Nat.isDigit_of_mem_toDigits (by decide) (by decide) hc
  have hrest : rest.takeWhile Char.isDigit = [] ∧ rest.dropWhile Char.isDigit = rest := by
    cases rest with
    | nil => exact ⟨rfl, rfl⟩
    | cons c rest =>
      rw [takeWhile_cons, dropWhile_cons, h c rfl]
      exact ⟨rfl, rfl⟩
  unfold readNat
  rw [takeWhile_append_of_pos hdigits, dropWhile_append_of_pos hdigits, hrest.1, hrest.2, append_nil,
    Nat.toList_repr, if_neg Nat.toDigits_ne_nil, Nat.ofDigitChars_toDigits (by decide) (by decide)]

/-- The text of an integer: digits, or a sign and digits. -/
theorem int_cases (n : Int) :
    (∃ m : Nat, n = m ∧ int n = m.repr.toList) ∨ ∃ m : Nat, n = -(m : Int) ∧ int n = '-' :: m.repr.toList := by
  unfold int
  rw [Int.toString_eq_repr, Int.repr_eq_if]
  split
  · rename_i h
    exact Or.inl ⟨n.toNat, by omega, rfl⟩
  · rename_i h
    refine Or.inr ⟨(-n).toNat, by omega, ?_⟩
    rw [String.toList_append]
    rfl

theorem repr_head (m : Nat) : ∃ c rest, m.repr.toList = c :: rest ∧ c.isDigit = true := by
  rw [Nat.toList_repr]
  obtain ⟨c, rest, hcons⟩ := exists_cons_of_ne_nil (Nat.toDigits_ne_nil (n := m) (b := 10))
  refine ⟨c, rest, hcons, Nat.isDigit_of_mem_toDigits (b := 10) (n := m) (by decide) (by decide) ?_⟩
  rw [hcons]
  exact mem_cons_self

/-- An integer is no other value: it starts with a digit or a sign. -/
theorem int_head (n : Int) : ∃ c rest, int n = c :: rest ∧ (c.isDigit = true ∨ c = '-') := by
  rcases int_cases n with ⟨m, -, htext⟩ | ⟨m, -, htext⟩
  · obtain ⟨c, rest, hcons, hc⟩ := repr_head m
    exact ⟨c, rest, htext.trans hcons, Or.inl hc⟩
  · exact ⟨'-', _, htext, Or.inr rfl⟩

theorem readInt_int (n : Int) {rest : List Char} (h : Ends rest) : readInt (int n ++ rest) = some (n, rest) := by
  unfold readInt
  rcases int_cases n with ⟨m, rfl, htext⟩ | ⟨m, rfl, htext⟩
  · obtain ⟨c, cs, hcons, hc⟩ := repr_head m
    have hsign : (int m ++ rest).head? ≠ some '-' := by
      rw [htext, hcons, cons_append, head?_cons]
      rintro ⟨⟩
      exact absurd hc (by decide)
    rw [if_neg hsign, htext, readNat_repr m h]
    rfl
  · rw [htext, cons_append, if_pos head?_cons, drop_one, tail_cons, readNat_repr m h]
    rfl

/-- How the text of a value starts. -/
theorem render_head (v : Value) : ∃ c rest, render v = c :: rest ∧ c ≠ ']' := by
  cases v with
  | string s => exact ⟨_, _, rfl, by decide⟩
  | int n =>
    obtain ⟨c, rest, hcons, hc⟩ := int_head n
    refine ⟨c, rest, by rw [render, hcons], ?_⟩
    rintro rfl
    exact absurd hc (by decide)
  | bool b => cases b <;> exact ⟨_, _, rfl, by decide⟩
  | array values => exact ⟨_, _, rfl, by decide⟩
  | object fields => exact ⟨_, _, rfl, by decide⟩

theorem renderElements_head (v : Value) (rest : List Value) (text : List Char) :
    (renderElements (v :: rest) ++ text).head? ≠ some ']' := by
  obtain ⟨c, cs, hc, hne⟩ := render_head v
  cases rest with
  | nil => simpa [renderElements, hc] using hne
  | cons w rest => simpa [renderElements, hc] using hne

theorem renderFields_head (f : String × Value) (rest : List (String × Value)) (text : List Char) :
    (renderFields (f :: rest) ++ text).head? = some '"' := by
  obtain ⟨name, v⟩ := f
  cases rest with
  | nil => rfl
  | cons g rest => rfl

/-- **What is read back with depth `n`**: every value whose text is no longer than that. -/
structure ReadsBack (n : Nat) : Prop where
  value : ∀ v rest, (render v).length ≤ n → Ends rest → readValue n (render v ++ rest) = some (v, rest)
  elements : ∀ v vs rest, (renderElements (v :: vs)).length < n →
    readElements n (renderElements (v :: vs) ++ ']' :: rest) = some (v :: vs, rest)
  fields : ∀ f fs rest, (renderFields (f :: fs)).length < n →
    readFields n (renderFields (f :: fs) ++ '\x7d' :: rest) = some (f :: fs, rest)

theorem ends_cons {c : Char} (h : c.isDigit = false) (rest : List Char) : Ends (c :: rest) := by
  intro d hd
  cases hd
  exact h

/-- One value, by its constructor. -/
theorem ReadsBack.value_succ (ih : ReadsBack n) (v : Value) (rest : List Char) (hn : (render v).length ≤ n + 1)
    (hrest : Ends rest) : readValue (n + 1) (render v ++ rest) = some (v, rest) := by
  match v with
  | .string s =>
    obtain ⟨text, htext, hread⟩ := readString_string s rest
    rw [render, htext, List.cons_append, readValue, if_pos rfl, hread]
    rfl
  | .int m =>
    obtain ⟨c, cs, hcons, hc⟩ := int_head m
    have hother : c ≠ '"' ∧ c ≠ '[' ∧ c ≠ '\x7b' ∧ c ≠ 't' ∧ c ≠ 'f' := by
      refine ⟨?_, ?_, ?_, ?_, ?_⟩ <;> rintro rfl <;> exact absurd hc (by decide)
    have hread := readInt_int m hrest
    rw [hcons, cons_append] at hread
    rw [render, hcons, cons_append, readValue, if_neg hother.1, if_neg hother.2.1, if_neg hother.2.2.1,
      if_neg hother.2.2.2.1, if_neg hother.2.2.2.2, hread]
    rfl
  | .bool true => rfl
  | .bool false => rfl
  | .array [] => rfl
  | .array (v :: vs) =>
    have hlength : (renderElements (v :: vs)).length < n := by
      rw [render, length_append, length_cons, length_singleton] at hn
      omega
    have hhead := renderElements_head v vs (']' :: rest)
    rw [render, cons_append, cons_append, append_assoc, singleton_append, readValue,
      if_neg (by decide), if_pos rfl, if_neg hhead, ih.elements v vs rest hlength]
    rfl
  | .object [] => rfl
  | .object (f :: fs) =>
    have hlength : (renderFields (f :: fs)).length < n := by
      rw [render, length_append, length_cons, length_singleton] at hn
      omega
    have hhead : (renderFields (f :: fs) ++ '\x7d' :: rest).head? ≠ some '\x7d' := by
      rw [renderFields_head]
      decide
    rw [render, cons_append, cons_append, append_assoc, singleton_append, readValue,
      if_neg (by decide), if_neg (by decide), if_pos rfl, if_neg hhead, ih.fields f fs rest hlength]
    rfl

/-- The elements of an array: one, or one and a comma. -/
theorem ReadsBack.elements_succ {n : Nat} (ih : ReadsBack n) (v : Value) (vs : List Value) (rest : List Char)
    (hn : (renderElements (v :: vs)).length < n + 1) :
    readElements (n + 1) (renderElements (v :: vs) ++ ']' :: rest) = some (v :: vs, rest) := by
  match vs with
  | [] =>
    rw [renderElements] at hn ⊢
    have hread := ih.value v (']' :: rest) (by omega) (ends_cons (by decide) _)
    rw [readElements, hread]
    rfl
  | w :: vs =>
    rw [renderElements] at hn ⊢
    rw [length_append, length_cons] at hn
    have hread := ih.value v (',' :: (renderElements (w :: vs) ++ ']' :: rest)) (by omega)
      (ends_cons (by decide) _)
    have hnext := ih.elements w vs rest (by omega)
    rw [append_assoc, cons_append, readElements, hread, Option.bind_some]
    dsimp only
    rw [if_pos head?_cons, drop_one, tail_cons, hnext]
    rfl

/-- The fields of an object, in the same way. -/
theorem ReadsBack.fields_succ (ih : ReadsBack n) (f : String × Value) (fs : List (String × Value))
    (rest : List Char) (hn : (renderFields (f :: fs)).length < n + 1) :
    readFields (n + 1) (renderFields (f :: fs) ++ '\x7d' :: rest) = some (f :: fs, rest) := by
  obtain ⟨name, v⟩ := f
  have hcolon : ∀ text, readColon (':' :: text) = some text := fun _ => rfl
  match fs with
  | [] =>
    rw [renderFields] at hn ⊢
    rw [length_append, length_cons] at hn
    obtain ⟨text, htext, hname⟩ := readString_string name (':' :: (render v ++ '\x7d' :: rest))
    have hread := ih.value v ('\x7d' :: rest) (by omega) (ends_cons (by decide) _)
    rw [append_assoc, cons_append, htext, cons_append, readFields, if_pos head?_cons, drop_one,
      tail_cons, hname, Option.bind_some]
    dsimp only
    rw [hcolon, Option.bind_some, hread]
    rfl
  | g :: fs =>
    rw [renderFields] at hn ⊢
    rw [length_append, length_cons, length_append, length_cons] at hn
    obtain ⟨text, htext, hname⟩ :=
      readString_string name (':' :: (render v ++ ',' :: (renderFields (g :: fs) ++ '\x7d' :: rest)))
    have hread := ih.value v (',' :: (renderFields (g :: fs) ++ '\x7d' :: rest)) (by omega)
      (ends_cons (by decide) _)
    have hnext := ih.fields g fs rest (by omega)
    have hshape : (string name ++ ':' :: render v ++ ',' :: renderFields (g :: fs)) ++ '\x7d' :: rest =
        '"' :: (text ++ ':' :: (render v ++ ',' :: (renderFields (g :: fs) ++ '\x7d' :: rest))) := by
      rw [htext]
      simp
    rw [hshape, readFields, if_pos head?_cons, drop_one, tail_cons, hname, Option.bind_some]
    dsimp only
    rw [hcolon, Option.bind_some, hread, Option.bind_some]
    dsimp only
    rw [if_pos head?_cons, drop_one, tail_cons, hnext]
    rfl

/-- **Every value is read back**, by induction on the depth of the reader. -/
theorem readsBack (n : Nat) : ReadsBack n := by
  induction n with
  | zero =>
    refine ⟨fun v rest hn _ => ?_, fun v vs rest hn => by omega, fun f fs rest hn => by omega⟩
    obtain ⟨c, cs, hc, -⟩ := render_head v
    rw [hc, length_cons] at hn
    omega
  | succ n ih => exact ⟨ih.value_succ, ih.elements_succ, ih.fields_succ⟩

end Json

end Go
