import FortigateDns.Go.Strings

/-!
# `net.ParseIP` and `net.IP.String`

The textual form of IP addresses as Go's `net` package reads and prints it. An address is
its eight 16-bit groups; an IPv4 address is the IPv4-mapped one. `parseIP` follows
`netip.ParseAddr` without zones, `IP.toText` prints the canonical form: dotted decimals
for an IPv4-mapped address, otherwise lower-case hexadecimal groups with the first
longest run of at least two zero groups replaced by `::`.
-/

namespace Go

/-- An IP address: eight groups of 16 bits. -/
structure IP where
  groups : List Nat
  length_eq : groups.length = 8
  bounded : ∀ g ∈ groups, g < 65536
  deriving DecidableEq

/-- The value of a decimal digit. -/
def decDigit (c : Char) : Option Nat :=
  if '0' ≤ c ∧ c ≤ '9' then some (c.toNat - '0'.toNat) else none

/-- The value of a hexadecimal digit. -/
def hexDigit (c : Char) : Option Nat :=
  if '0' ≤ c ∧ c ≤ '9' then some (c.toNat - '0'.toNat)
  else if 'a' ≤ c ∧ c ≤ 'f' then some (c.toNat - 'a'.toNat + 10)
  else if 'A' ≤ c ∧ c ≤ 'F' then some (c.toNat - 'A'.toNat + 10)
  else none

/-- One decimal octet: at least one digit, no leading zero, at most 255. -/
def parseOctet (l : List Char) : Option Nat :=
  match l with
  | [] => none
  | c :: rest => do
    let digits ← (c :: rest).mapM decDigit
    if rest ≠ [] ∧ c = '0' then none
    else
      let v := digits.foldl (fun v d => v * 10 + d) 0
      if v ≤ 255 then some v else none

/-- `netip.parseIPv4Fields`: four octets separated by dots. -/
def parseIPv4Fields (l : List Char) : Option (Nat × Nat × Nat × Nat) := do
  match ← (l.splitOn '.').mapM parseOctet with
  | [a, b, c, d] => some (a, b, c, d)
  | _ => none

/-- The hexadecimal digits a group starts with, and the rest. -/
def spanHex (l : List Char) : List Char × List Char := l.span fun c => (hexDigit c).isSome

/-- The loop of `netip.parseIPv6` over colon-separated groups. `acc` holds the groups read
so far, `ell` the position of the `::` if one was read. The fuel bounds the number of
groups, which the source bounds by the 16 bytes of the address. -/
def parseGroups : Nat → List Nat → Option Nat → List Char → Option (List Nat × Option Nat)
  | 0, acc, ell, l => if l = [] then some (acc, ell) else none
  | fuel + 1, acc, ell, l =>
    let (digits, rest) := spanHex l
    if digits = [] ∨ 4 < digits.length then none
    else if rest.head? = some '.' then
      -- a trailing IPv4 address must fill the last two groups
      if (ell.isNone ∧ acc.length ≠ 6) ∨ 6 < acc.length then none
      else do
        let (a, b, c, d) ← parseIPv4Fields l
        some (acc ++ [a * 256 + b, c * 256 + d], ell)
    else
      let acc := acc ++ [(digits.filterMap hexDigit).foldl (fun v d => v * 16 + d) 0]
      match rest with
      | [] => some (acc, ell)
      | [_] => none
      | c :: d :: rest =>
        if c ≠ ':' then none
        else if d = ':' then
          if ell.isSome then none
          else if rest = [] then some (acc, some acc.length)
          else parseGroups fuel acc (some acc.length) rest
        else parseGroups fuel acc ell (d :: rest)

/-- Expands the `::` to the missing groups; it has to stand for at least one. -/
def expandEllipsis (groups : List Nat) (ell : Option Nat) : Option (List Nat) :=
  match ell with
  | none => if groups.length = 8 then some groups else none
  | some i =>
    if groups.length < 8 then
      some (groups.take i ++ List.replicate (8 - groups.length) 0 ++ groups.drop i)
    else none

/-- `netip.parseIPv6` for a text without a zone. -/
def parseIPv6 (l : List Char) : Option (List Nat) :=
  match l with
  | ':' :: ':' :: rest =>
    if rest = [] then some (List.replicate 8 0)
    else (parseGroups 8 [] (some 0) rest).bind fun (g, ell) => expandEllipsis g ell
  | _ => (parseGroups 8 [] none l).bind fun (g, ell) => expandEllipsis g ell

/-- Makes an address of eight bounded groups. -/
def mkIP (groups : List Nat) : Option IP :=
  if h : groups.length = 8 ∧ ∀ g ∈ groups, g < 65536 then some ⟨groups, h.1, h.2⟩ else none

/-- `net.ParseIP`: the first dot or colon decides between the two families; a text with a
zone is not an address. -/
def parseIP (s : String) : Option IP :=
  let l := s.toList
  match l.find? fun c => c = '.' ∨ c = ':' ∨ c = '%' with
  | some '.' => (parseIPv4Fields l).bind fun (a, b, c, d) =>
      mkIP [0, 0, 0, 0, 0, 0xffff, a * 256 + b, c * 256 + d]
  | some ':' => if l.contains '%' then none else (parseIPv6 l).bind mkIP
  | _ => none

/-- `IP.To4`: the four octets of an IPv4-mapped address. -/
def IP.to4 (ip : IP) : Option (Nat × Nat × Nat × Nat) :=
  match ip.groups with
  | [0, 0, 0, 0, 0, 0xffff, h, l] => some (h / 256, h % 256, l / 256, l % 256)
  | _ => none

/-- The start and length of the first longest run of zero groups, if it has two or more. -/
def longestZeroRun (groups : List Nat) : Option (Nat × Nat) :=
  (List.range 8).foldl (fun best i =>
    let n := ((groups.drop i).takeWhile (· = 0)).length
    if 2 ≤ n ∧ (best.map Prod.snd).getD 0 < n then some (i, n) else best) none

/-- Groups in hexadecimal, separated by colons. -/
def hexGroups (groups : List Nat) : String :=
  join ":" (groups.map fun g => String.ofList (Nat.toDigits 16 g))

/-- `IP.String`. -/
def IP.toText (ip : IP) : String :=
  match ip.to4 with
  | some (a, b, c, d) => join "." [a.repr, b.repr, c.repr, d.repr]
  | none =>
    match longestZeroRun ip.groups with
    | none => hexGroups ip.groups
    | some (i, n) => hexGroups (ip.groups.take i) ++ "::" ++ hexGroups (ip.groups.drop (i + n))

end Go
