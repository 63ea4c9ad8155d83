import FortigateDns.Go.Strings

/-!
# SHA-256

`crypto/sha256` and `encoding/hex` on the UTF-8 bytes of a string, with words as natural
numbers below 2^32.
-/

namespace Go

open List

namespace Sha256

/-- The UTF-8 encoding of a character. -/
def utf8Char (c : Char) : List Nat :=
  let n := c.toNat
  if n < 0x80 then [n]
  else if n < 0x800 then [0xC0 + n / 64, 0x80 + n % 64]
  else if n < 0x10000 then [0xE0 + n / 4096, 0x80 + n / 64 % 64, 0x80 + n % 64]
  else [0xF0 + n / 262144, 0x80 + n / 4096 % 64, 0x80 + n / 64 % 64, 0x80 + n % 64]

/-- The bytes of a text. -/
def utf8 (text : List Char) : List Nat := text.flatMap utf8Char

/-- Arithmetic is modulo `2 ^ 32`. -/
def word (n : Nat) : Nat := n % 4294967296

/-- Rotation of a word to the right. -/
def rotr (x n : Nat) : Nat := word (x >>> n ||| x <<< (32 - n))

/-- The initial hash value. -/
def initial : List Nat :=
  [0x6a09e667, 0xbb67ae85, 0x3c6ef372, 0xa54ff53a, 0x510e527f, 0x9b05688c, 0x1f83d9ab, 0x5be0cd19]

/-- The round constants. -/
def constants : List Nat :=
  [0x428a2f98, 0x71374491, 0xb5c0fbcf, 0xe9b5dba5, 0x3956c25b, 0x59f111f1, 0x923f82a4, 0xab1c5ed5,
   0xd807aa98, 0x12835b01, 0x243185be, 0x550c7dc3, 0x72be5d74, 0x80deb1fe, 0x9bdc06a7, 0xc19bf174,
   0xe49b69c1, 0xefbe4786, 0x0fc19dc6, 0x240ca1cc, 0x2de92c6f, 0x4a7484aa, 0x5cb0a9dc, 0x76f988da,
   0x983e5152, 0xa831c66d, 0xb00327c8, 0xbf597fc7, 0xc6e00bf3, 0xd5a79147, 0x06ca6351, 0x14292967,
   0x27b70a85, 0x2e1b2138, 0x4d2c6dfc, 0x53380d13, 0x650a7354, 0x766a0abb, 0x81c2c92e, 0x92722c85,
   0xa2bfe8a1, 0xa81a664b, 0xc24b8b70, 0xc76c51a3, 0xd192e819, 0xd6990624, 0xf40e3585, 0x106aa070,
   0x19a4c116, 0x1e376c08, 0x2748774c, 0x34b0bcb5, 0x391c0cb3, 0x4ed8aa4a, 0x5b9cca4f, 0x682e6ff3,
   0x748f82ee, 0x78a5636f, 0x84c87814, 0x8cc70208, 0x90befffa, 0xa4506ceb, 0xbef9a3f7, 0xc67178f2]

/-- Extends the message schedule by `n` words; the latest word comes first. -/
def extend : Nat → List Nat → List Nat
  | 0, w => w
  | n + 1, w =>
    let x := w.getD 14 0
    let y := w.getD 1 0
    let s0 := rotr x 7 ^^^ rotr x 18 ^^^ x >>> 3
    let s1 := rotr y 17 ^^^ rotr y 19 ^^^ y >>> 10
    extend n (word (w.getD 15 0 + s0 + w.getD 6 0 + s1) :: w)

/-- One round; the state is the eight working variables. -/
def round (state : List Nat) (kw : Nat × Nat) : List Nat :=
  match state with
  | [a, b, c, d, e, f, g, h] =>
    let s1 := rotr e 6 ^^^ rotr e 11 ^^^ rotr e 25
    let ch := (e &&& f) ^^^ ((4294967295 - e) &&& g)
    let t1 := h + s1 + ch + kw.1 + kw.2
    let s0 := rotr a 2 ^^^ rotr a 13 ^^^ rotr a 22
    let maj := (a &&& b) ^^^ (a &&& c) ^^^ (b &&& c)
    [word (t1 + s0 + maj), a, b, c, word (d + t1), e, f, g]
  | other => other

/-- Takes in one block of 16 words. -/
def compress (hash block : List Nat) : List Nat :=
  let schedule := (extend 48 block.reverse).reverse
  let state := (constants.zip schedule).foldl round hash
  (hash.zip state).map fun p => word (p.1 + p.2)

/-- The `n` bytes of a number, the highest first. -/
def bytesBE : Nat → Nat → List Nat
  | 0, _ => []
  | n + 1, x => x / 256 ^ n % 256 :: bytesBE n x

/-- The padded message. -/
def pad (bytes : List Nat) : List Nat :=
  let n := bytes.length
  bytes ++ [0x80] ++ List.replicate ((119 - n % 64) % 64) 0 ++ bytesBE 8 (8 * n)

/-- Big-endian words of four bytes. -/
def words : List Nat → List Nat
  | a :: b :: c :: d :: rest => (((a * 256 + b) * 256 + c) * 256 + d) :: words rest
  | _ => []

/-- Takes in `n` blocks. -/
def blocks : Nat → List Nat → List Nat → List Nat
  | 0, hash, _ => hash
  | n + 1, hash, ws => blocks n (compress hash (ws.take 16)) (ws.drop 16)

/-- `sha256.Sum256`. -/
def sum (bytes : List Nat) : List Nat :=
  let ws := words (pad bytes)
  (blocks (ws.length / 16) initial ws).flatMap (bytesBE 4)

/-- Digits are in lower case. -/
def hexDigit (n : Nat) : Char :=
  ['0', '1', '2', '3', '4', '5', '6', '7', '8', '9', 'a', 'b', 'c', 'd', 'e', 'f'].getD n '0'

/-- `hex.EncodeToString`. -/
def hex (bytes : List Nat) : List Char := bytes.flatMap fun b => [hexDigit (b / 16), hexDigit (b % 16)]

theorem length_round (state : List Nat) (kw : Nat × Nat) : (round state kw).length = state.length := by
  unfold round
  split <;> rfl

theorem length_compress (hash block : List Nat) : (compress hash block).length = hash.length := by
  have hrounds : ∀ (kws : List (Nat × Nat)) (state : List Nat),
    (kws.foldl round state).length = state.length := by
    intro kws
    induction kws with
    | nil => exact fun _ => rfl
    | cons kw kws ih => exact fun state => (ih _).trans (length_round state kw)
  unfold compress
  rw [length_map, length_zip, hrounds, Nat.min_self]

theorem length_blocks (n : Nat) (hash ws : List Nat) : (blocks n hash ws).length = hash.length := by
  induction n generalizing hash ws with
  | zero => rfl
  | succ n ih => exact (ih _ _).trans (length_compress _ _)

theorem hexDigit_mem (n : Nat) : hexDigit n ∈ "0123456789abcdef".toList := by
  have hsmall : ∀ n < 16, hexDigit n ∈ "0123456789abcdef".toList := by decide
  by_cases h : n < 16
  · exact hsmall n h
  · unfold hexDigit
    rw [getD_eq_getElem?_getD, getElem?_eq_none (by simpa using h)]
    decide

end Sha256

/-- The SHA-256 digest of a text, in hexadecimal. -/
@[irreducible] def sha256Hex (text : List Char) : List Char := Sha256.hex (Sha256.sum (Sha256.utf8 text))

/-- The digest of the standard's first test vector. -/
example : String.ofList (sha256Hex ['a', 'b', 'c']) =
    "ba7816bf8f01cfea414140de5dae2223b00361a396177a9cb410ff61f20015ad" := by
  decide +kernel

/-- Eight words of four bytes, two digits each. -/
theorem length_sha256Hex (text : List Char) : (sha256Hex text).length = 64 := by
  have hpairs : ∀ bytes : List Nat, (Sha256.hex bytes).length = bytes.length * 2 := by
    intro bytes
    unfold Sha256.hex
    induction bytes with
    | nil => rfl
    | cons b bytes ih => rw [flatMap_cons, length_append, ih, length_cons]; simp; omega
  have hwords : ∀ words : List Nat, (words.flatMap (Sha256.bytesBE 4)).length = words.length * 4 := by
    intro words
    induction words with
    | nil => rfl
    | cons w words ih => rw [flatMap_cons, length_append, ih, length_cons]; simp [Sha256.bytesBE]; omega
  unfold sha256Hex Sha256.sum
  rw [hpairs]
  dsimp only
  rw [hwords, Sha256.length_blocks]
  rfl

theorem sha256Hex_ne_nil (text : List Char) : sha256Hex text ≠ [] := by
  rw [← length_pos_iff_ne_nil, length_sha256Hex]
  decide

/-- A digest is written with hexadecimal digits. -/
theorem sha256Hex_mem {text : List Char} {c : Char} (h : c ∈ sha256Hex text) : c ∈ "0123456789abcdef".toList := by
  unfold sha256Hex Sha256.hex at h
  obtain ⟨b, -, hb⟩ := mem_flatMap.1 h
  simp only [mem_cons, not_mem_nil, or_false] at hb
  rcases hb with rfl | rfl <;> exact Sha256.hexDigit_mem _

end Go
