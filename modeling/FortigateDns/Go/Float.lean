import Mathlib.Algebra.Group.Int.Defs
import Mathlib.Algebra.Group.Nat.Defs
import Mathlib.Data.Int.Order.Basic

/-!
# float64

Every finite `float64` is a multiple of `2 ^ -1074`, and is kept as that multiple. A number is rounded to
the nearest one with a significand of 53 bits, and a tie goes to the even significand, as
`strconv.ParseFloat` and the conversion of integers do.

* `ofInt_exact`, `ofDecimal_exact`, `toInt64_ofInt`: integers up to `2 ^ 53` are kept, their literals
  are read as such, and they come back when they are converted to `int64`.
-/

namespace Go

variable {n : Int}

/-- A finite `float64`, in units of `2 ^ -1074`. The two zeros are one, as they are for `==`. -/
structure Float64 where
  units : Int
  deriving DecidableEq, Repr

namespace Float64

/-- The exponent of the unit is the opposite of this. -/
def scaleBits : Nat := 1074

/-- Finite numbers are below two to this power. -/
def rangeBits : Nat := 1024

/-- The units in one. -/
def scale : Nat := 2 ^ scaleBits

/-- The quotient, rounded to the nearest integer; a tie goes to the even one. -/
def roundHalfEven (n d : Nat) : Nat :=
  if 2 * (n % d) < d then n / d
  else if d < 2 * (n % d) then n / d + 1
  else n / d + n / d % 2

/-- The units of `n / d`, rounded to 53 bits. Below `2 ^ 53` units every number of units is exact. -/
def roundUnits (n d : Nat) : Nat :=
  let shift := Nat.log2 (n * scale / d) - 52
  roundHalfEven (n * scale) (d * 2 ^ shift) * 2 ^ shift

/-- `strconv.ParseFloat` of the literal `mantissa * 10 ^ exponent`; beyond the range it is an error. -/
def ofDecimal (mantissa exponent : Int) : Option Float64 :=
  let units := roundUnits (mantissa.natAbs * 10 ^ exponent.toNat) (10 ^ (-exponent).toNat)
  if units < 2 ^ rangeBits * scale then some ⟨mantissa.sign * units⟩ else none

/-- The conversion of an integer. -/
def ofInt (n : Int) : Float64 := ⟨n.sign * roundUnits n.natAbs 1⟩

/-- The conversion to `int64`, which truncates. Go leaves open what it gives beyond the range of `int64`;
this is what amd64 gives. -/
def toInt64 (x : Float64) : Int :=
  let n := x.units.tdiv scale
  if -2 ^ 63 ≤ n ∧ n < 2 ^ 63 then n else -2 ^ 63

theorem scale_pos : 0 < scale := Nat.two_pow_pos scaleBits

theorem two_pow_mul_scale (k : Nat) : 2 ^ k * scale = 2 ^ (k + scaleBits) := by
  unfold scale
  rw [Nat.pow_add]

theorem roundHalfEven_mul (k : Nat) {d : Nat} (hd : 0 < d) : roundHalfEven (k * d) d = k := by
  unfold roundHalfEven
  rw [Nat.mul_mod_left, Nat.mul_zero, if_pos hd, Nat.mul_div_cancel _ hd]

/-- The units of a small integer are a multiple of what they are rounded to. -/
theorem shift_dvd {n : Nat} (h : n ≤ 2 ^ 53) : 2 ^ (Nat.log2 (n * scale) - 52) ∣ n * scale := by
  rcases Nat.lt_or_eq_of_le h with hlt | rfl
  · have hlog : Nat.log2 (n * scale) < 53 + scaleBits := by
      rcases Nat.eq_zero_or_pos n with rfl | hpos
      · rw [Nat.zero_mul, Nat.log2_zero]
        omega
      rw [Nat.log2_lt (Nat.pos_iff_ne_zero.1 (Nat.mul_pos hpos scale_pos)), ← two_pow_mul_scale]
      exact Nat.mul_lt_mul_of_pos_right hlt scale_pos
    have hscale : 2 ^ (Nat.log2 (n * scale) - 52) ∣ scale := Nat.pow_dvd_pow 2 (by omega)
    exact Nat.dvd_trans hscale (Nat.dvd_mul_left scale n)
  · rw [two_pow_mul_scale, Nat.log2_two_pow]
    exact Nat.pow_dvd_pow 2 (by omega)

theorem roundUnits_exact {n : Nat} (h : n ≤ 2 ^ 53) : roundUnits n 1 = n * scale := by
  have hdvd := shift_dvd h
  unfold roundUnits
  dsimp only
  rw [Nat.div_one, Nat.one_mul]
  have hpos : 0 < 2 ^ (Nat.log2 (n * scale) - 52) := Nat.two_pow_pos _
  generalize 2 ^ (Nat.log2 (n * scale) - 52) = unit at hdvd hpos ⊢
  obtain ⟨k, hk⟩ := hdvd
  rw [hk, Nat.mul_comm unit k, roundHalfEven_mul k hpos]

/-- **Integers up to `2 ^ 53` are kept.** -/
theorem ofInt_exact (h : n.natAbs ≤ 2 ^ 53) : (ofInt n).units = n * scale := by
  show n.sign * (roundUnits n.natAbs 1 : Int) = n * scale
  rw [roundUnits_exact h, Int.natCast_mul, ← Int.mul_assoc, Int.sign_mul_natAbs]

/-- The literal of such an integer is read as that integer. -/
theorem ofDecimal_exact (h : n.natAbs ≤ 2 ^ 53) : ofDecimal n 0 = some (ofInt n) := by
  have hrange : n.natAbs < 2 ^ rangeBits :=
    Nat.lt_of_le_of_lt h (Nat.pow_lt_pow_right Nat.one_lt_two (by decide))
  have hunits : roundUnits n.natAbs 1 < 2 ^ rangeBits * scale := by
    rw [roundUnits_exact h]
    exact Nat.mul_lt_mul_of_pos_right hrange scale_pos
  unfold ofDecimal
  simp only [Int.toNat_zero, Int.neg_zero, Nat.pow_zero, Nat.mul_one]
  rw [if_pos hunits]
  rfl

/-- They come back. -/
theorem toInt64_ofInt (h : n.natAbs ≤ 2 ^ 53) : (ofInt n).toInt64 = n := by
  have hscale : (scale : Int) ≠ 0 := Int.natCast_ne_zero.2 (Nat.pos_iff_ne_zero.1 scale_pos)
  unfold toInt64
  rw [ofInt_exact h, Int.mul_tdiv_cancel _ hscale]
  dsimp only
  rw [if_pos (by omega)]

end Float64

end Go
