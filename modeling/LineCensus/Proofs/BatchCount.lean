import LineCensus.Batch
import LineCensus.Proofs.Nearest

/-! The number of batches that some lines make: exact in the range of files, and the one way in which
a size that is out of all proportion loses them. -/
namespace LineCensus.Batch

open Numeric (Binary64)

private theorem ofRatio?_bind_ceil? (num den : Nat) :
    (Binary64.ofRatio? num den).bind (·.ceil?) = (Binary64.ofQuotient false num den).ceil? := by
  have hsign : (decide ((num : Int) < 0) != decide ((den : Int) < 0)) = false := by
    simp [Int.not_lt.mpr (Int.natCast_nonneg _)]
  unfold Binary64.ofRatio?
  rw [hsign, Int.natAbs_natCast, Int.natAbs_natCast]
  cases Binary64.ofQuotient false num den <;> rfl

/-- Up to `2 ^ 53` lines the number of batches is exact, unless the quotient is rounded down to zero:
then there is no batch at all. -/
theorem count?_eq {size lines : Nat} (hs : 0 < size) (hl : lines ≤ 2 ^ 53) :
    count? size lines = .ok ↑(if lines * 2 ^ 1075 ≤ size then 0 else lines ⌈/⌉ size) := by
  unfold count?
  rw [ofRatio?_bind_ceil?, Binary64.ceil?_ofQuotient hl hs]

theorem count_eq {size lines : Nat} (hs : 0 < size) (hl : lines ≤ 2 ^ 53) :
    count size lines = if lines * 2 ^ 1075 ≤ size then 0 else lines ⌈/⌉ size := by
  unfold count
  rw [count?_eq hs hl]
  exact Int.toNat_natCast _

private theorem eq_zero_of_mul_two_pow_le {lines size k : Nat} (hsize : size ≤ 2 ^ k)
    (hle : lines * 2 ^ (k + 1) ≤ size) : lines = 0 := by
  have hp : 0 < 2 ^ k := Nat.two_pow_pos k
  rw [pow_succ] at hle
  by_contra hne
  have := Nat.mul_le_mul_right (2 ^ k * 2) (Nat.one_le_iff_ne_zero.mpr hne)
  omega

theorem count_eq_ceilDiv {size lines : Nat} (hs : 0 < size) (hsize : size ≤ 2 ^ 1074)
    (hl : lines ≤ 2 ^ 53) : count size lines = lines ⌈/⌉ size := by
  rw [count_eq hs hl]
  split
  · rename_i hle
    rw [show 1075 = 1074 + 1 from rfl] at hle
    obtain rfl := eq_zero_of_mul_two_pow_le hsize hle
    exact (zero_ceilDiv size).symm
  · rfl

/-- Up to `2 ^ 53` lines in batches of at most `2 ^ 1074`, rounding the quotient to binary64 does not change its
ceiling: there are as many batches as the exact quotient says. -/
theorem count_is_exact_ceiling {size lines : Nat} (hs : 1 ≤ size) (hsize : size ≤ 2 ^ 1074) (hl : lines ≤ 2 ^ 53) :
    ∃ quotient, Binary64.ofRatio? lines size = some quotient ∧ quotient.IsNearest (lines / size) ∧
      count? size lines = .ok ⌈quotient.value⌉ ∧ ⌈quotient.value⌉ = ⌈(lines / size : ℚ)⌉ ∧
      (count size lines : ℤ) = ⌈(lines / size : ℚ)⌉ := by
  have hrange : (lines / size : ℚ) < 2 ^ 1023 := by
    calc (lines / size : ℚ) ≤ lines := div_le_self (Nat.cast_nonneg _) (mod_cast hs)
      _ ≤ 2 ^ 53 := mod_cast hl
      _ < 2 ^ 1023 := pow_lt_pow_right₀ one_lt_two (by decide)
  obtain ⟨m, e, hratio, hnearest⟩ := Binary64.exists_ofRatio?_isNearest hs hrange
  have hrounded : count? size lines = .ok ⌈(Binary64.finite false m e).value⌉ := by
    rw [count?, hratio, Option.bind_some, Binary64.ceil?_eq_ceil_value]
  have hexact : (count size lines : ℤ) = ⌈(lines / size : ℚ)⌉ := by
    rw [count_eq_ceilDiv hs hsize hl, Binary64.ceil_div_eq_ceilDiv lines hs]
  have hceil : count? size lines = .ok (count size lines : ℤ) := by
    rw [count?_eq hs hl, count_eq hs hl]
  exact ⟨_, hratio, hnearest, hrounded, (Except.ok.inj (hrounded.symm.trans hceil)).trans hexact, hexact⟩

/-- One line more than a batch of nearly `2 ^ 53` holds: the quotient lies just above the middle between one and the
next number of the format, and there are two batches. -/
theorem count_is_exact_ceiling_of_two_batches :
    1 ≤ 9007199254740991 ∧ 9007199254740991 ≤ 2 ^ 1074 ∧ 9007199254740992 ≤ 2 ^ 53 ∧
      count 9007199254740991 9007199254740992 = 2 := by
  have hsize : 9007199254740991 ≤ 2 ^ 1074 := by omega
  obtain ⟨-, -, -, -, -, hcount⟩ :=
    @count_is_exact_ceiling 9007199254740991 9007199254740992 (by decide) hsize (by decide)
  have hceil : ⌈((9007199254740992 : Nat) / (9007199254740991 : Nat) : ℚ)⌉ = 2 := by
    rw [Int.ceil_eq_iff]
    norm_num
  exact ⟨by decide, hsize, by decide, mod_cast hcount.trans hceil⟩

end LineCensus.Batch
