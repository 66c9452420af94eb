import LineCensus.Numeric.Binary64
import Mathlib.Algebra.Order.Floor.Div
import Mathlib.Tactic

/-! What rounding to binary64 keeps of a quotient of integers: bounds on the rounded significand, and
the least integer that is not below the rounded quotient. -/
namespace LineCensus.Numeric

theorem pow2_eq (n : Nat) : pow2 n = 2 ^ n := rfl

theorem div_le_roundHalfEven (a d : Nat) : a / d ≤ roundHalfEven a d := by
  unfold roundHalfEven
  dsimp only
  split <;> omega

theorem roundHalfEven_le {a d m : Nat} (hd : 0 < d) (h : a ≤ m * d) : roundHalfEven a d ≤ m := by
  have hle : a / d ≤ m := Nat.div_le_of_le_mul (by rwa [Nat.mul_comm] at h)
  rcases hle.lt_or_eq with hlt | rfl
  · unfold roundHalfEven
    dsimp only
    split <;> omega
  · have hz : a % d = 0 := by
      have := Nat.div_add_mod' a d
      omega
    simp [roundHalfEven, hz, hd]

/-- A quotient that exceeds an integer by more than one half is rounded above it. -/
theorem lt_roundHalfEven {a d m r : Nat} (hd : 0 < d) (h : m * d + r ≤ a) (hr : d < 2 * r) :
    m < roundHalfEven a d := by
  have hm : m ≤ a / d := (Nat.le_div_iff_mul_le hd).mpr (by omega)
  rcases hm.lt_or_eq with hlt | rfl
  · exact hlt.trans_le (div_le_roundHalfEven a d)
  · have hmod : r ≤ a % d := by
      have := Nat.div_add_mod' a d
      omega
    unfold roundHalfEven
    dsimp only
    rw [if_neg]
    · omega
    · simp only [Bool.or_eq_true, decide_eq_true_eq, Bool.and_eq_true, beq_iff_eq]
      omega

/-- Zero is even, so one half is rounded down to it. -/
theorem roundHalfEven_eq_zero_iff {a d : Nat} (hd : 0 < d) : roundHalfEven a d = 0 ↔ 2 * a ≤ d := by
  constructor
  · intro hz
    by_contra hlt
    have hpos : 0 < roundHalfEven a d := lt_roundHalfEven hd (Nat.le_of_eq (by omega)) (by omega : d < 2 * a)
    omega
  · intro hle
    have hq : a / d = 0 := Nat.div_eq_of_lt (by omega)
    have hmod : a % d = a := Nat.mod_eq_of_lt (by omega)
    unfold roundHalfEven
    dsimp only
    rw [hq, hmod, if_pos]
    rcases hle.lt_or_eq with hlt | heq
    · simp [hlt]
    · simp [heq]

private theorem ceilDiv_eq_one {num den : Nat} (hn : 0 < num) (h : num ≤ den) : num ⌈/⌉ den = 1 := by
  have hd : 0 < den := hn.trans_le h
  apply le_antisymm
  · rwa [ceilDiv_le_iff_le_mul hd, Nat.mul_one]
  · rw [Nat.one_le_iff_ne_zero]
    intro hz
    have := (ceilDiv_le_iff_le_mul hd).mp hz.le
    omega

namespace Binary64

/-- At the chosen exponent the quotient has 53 digits before the point, unless the exponent is the
least. -/
theorem quotientExponent_spec {num : Nat} (den : Nat) (hn : 0 < num) :
    minExponent ≤ quotientExponent num den ∧ (quotientExponent num den = minExponent ∨
      den * 2 ^ (quotientExponent num den).toNat * 2 ^ 52 ≤
        num * 2 ^ (-quotientExponent num den).toNat) := by
  refine ⟨le_max_right _ _, ?_⟩
  set guess : Int := (Nat.log2 num : Int) - (Nat.log2 den : Int) - 52 with hg
  have hlow : den * 2 ^ (guess - 1).toNat * 2 ^ 52 ≤ num * 2 ^ (-(guess - 1)).toNat := by
    have hden : den ≤ 2 ^ (Nat.log2 den + 1) := (Nat.lt_log2_self).le
    have hnum : 2 ^ Nat.log2 num ≤ num := Nat.log2_self_le hn.ne'
    calc den * 2 ^ (guess - 1).toNat * 2 ^ 52
        ≤ 2 ^ (Nat.log2 den + 1) * 2 ^ (guess - 1).toNat * 2 ^ 52 := by gcongr
      _ = 2 ^ Nat.log2 num * 2 ^ (-(guess - 1)).toNat := by
        rw [← pow_add, ← pow_add, ← pow_add]
        congr 1
        omega
      _ ≤ num * 2 ^ (-(guess - 1)).toNat := by gcongr
  have hexact : quotientExponent num den =
      max (if num * 2 ^ (-guess).toNat < den * 2 ^ guess.toNat * 2 ^ 52 then guess - 1 else guess)
        minExponent := rfl
  rw [hexact]
  split
  · rcases max_choice (guess - 1) minExponent with h | h
    · exact .inr (by simpa only [h] using hlow)
    · exact .inl h
  · rename_i hge
    rcases max_choice guess minExponent with h | h
    · exact .inr (by simpa only [h] using Nat.le_of_not_lt hge)
    · exact .inl h

/-- An exponent above zero is needed by one of these quotients only. -/
theorem eq_of_quotientExponent_pos {num den : Nat} (hb : num ≤ 2 ^ 53) (hn : 0 < num) (hd : 0 < den)
    (he : 0 < quotientExponent num den) : num = 2 ^ 53 ∧ den = 1 := by
  have hspec := (quotientExponent_spec den hn).2
  obtain ⟨e, hexp⟩ : ∃ e : Nat, quotientExponent num den = (e + 1 : Nat) :=
    ⟨(quotientExponent num den).toNat - 1, by omega⟩
  rw [hexp] at hspec
  have hneg : (-((e + 1 : Nat) : Int)).toNat = 0 := by omega
  rcases hspec with h | h
  · unfold minExponent at h
    omega
  · rw [hneg, Int.toNat_natCast, pow_zero, Nat.mul_one] at h
    have hle : den ≤ den * 2 ^ e := Nat.le_mul_of_pos_right den (Nat.two_pow_pos e)
    have hbig : den * 2 ^ e * 2 ^ 53 ≤ num := by
      calc den * 2 ^ e * 2 ^ 53 = den * 2 ^ (e + 1) * 2 ^ 52 := by ring
        _ ≤ num := h
    generalize den * 2 ^ e = d at hle hbig
    omega

private theorem roundHalfEven_ceilDiv {num den k : Nat} (hd : 0 < den) (hb : num ≤ 2 ^ 53)
    (hk : den * 2 ^ 52 ≤ num * 2 ^ k) :
    roundHalfEven (num * 2 ^ k) den ⌈/⌉ 2 ^ k = num ⌈/⌉ den := by
  have hp : 0 < 2 ^ k := Nat.two_pow_pos k
  generalize 2 ^ k = p at hk hp ⊢
  have hdp : den ≤ 2 * p := by
    have := hk.trans (Nat.mul_le_mul_right p hb)
    omega
  have hexcess {c r : Nat} (hr : num = den * c + r + 1) : den < 2 * ((r + 1) * p) := by
    rcases hdp.lt_or_eq with hlt | rfl
    · nlinarith [Nat.zero_le (r * p)]
    · have hnum : num = 2 ^ 53 := by
        have : 2 ^ 53 * p ≤ num * p := by linarith
        exact Nat.le_antisymm hb (Nat.le_of_mul_le_mul_right this hp)
      have heven : num = 2 * (p * c) + r + 1 := by rw [hr]; ring
      have hr1 : 1 ≤ r := by omega
      nlinarith
  apply eq_of_forall_ge_iff
  intro c
  rw [ceilDiv_le_iff_le_mul hp, ceilDiv_le_iff_le_mul hd]
  constructor
  · contrapose!
    intro hc
    obtain ⟨r, hr⟩ := Nat.exists_eq_add_of_lt hc
    apply lt_roundHalfEven (r := (r + 1) * p) hd
    · rw [hr]
      exact Nat.le_of_eq (by ring)
    · exact hexcess hr
  · intro hc
    exact roundHalfEven_le hd (by
      calc num * p ≤ den * c * p := Nat.mul_le_mul_right p hc
        _ = p * c * den := by ring)

private theorem roundHalfEven_ceilDiv_of_lt {num den k : Nat} (hn : 0 < num) (hd : 0 < den) (hk : 52 ≤ k)
    (hlt : num * 2 ^ k < den * 2 ^ 52) :
    roundHalfEven (num * 2 ^ k) den ⌈/⌉ 2 ^ k =
      if num * 2 ^ (k + 1) ≤ den then 0 else num ⌈/⌉ den := by
  have hpow : 2 ^ 52 ≤ 2 ^ k := Nat.pow_le_pow_right (by decide) hk
  have hle : roundHalfEven (num * 2 ^ k) den ≤ 2 ^ k := by
    apply roundHalfEven_le hd
    calc num * 2 ^ k ≤ den * 2 ^ 52 := hlt.le
      _ ≤ den * 2 ^ k := Nat.mul_le_mul_left den hpow
      _ = 2 ^ k * den := Nat.mul_comm _ _
  have hzero := roundHalfEven_eq_zero_iff (a := num * 2 ^ k) hd
  rw [show 2 * (num * 2 ^ k) = num * 2 ^ (k + 1) by ring] at hzero
  split
  · rename_i h
    rw [hzero.mpr h, zero_ceilDiv]
  · rename_i h
    have hnum : num ≤ den := by
      by_contra hgt
      have := Nat.mul_le_mul (Nat.le_of_not_le hgt) hpow
      omega
    rw [ceilDiv_eq_one hn hnum]
    exact ceilDiv_eq_one (Nat.pos_of_ne_zero (mt hzero.mp h)) hle

private theorem ceil?_finite (m k : Nat) : (finite false m (-(k : Int))).ceil? = some ↑(m ⌈/⌉ 2 ^ k) := by
  have hz : (-(k : Int)).toNat = 0 := by omega
  have hk : (- -(k : Int)).toNat = k := by omega
  simp only [ceil?, numerator, denominator, hz, hk, pow2_eq, pow_zero, mul_one]
  rfl

private theorem ceil?_carried (m k : Nat) : (carried false m (-(k : Int))).ceil? = some ↑(m ⌈/⌉ 2 ^ k) := by
  unfold carried
  split
  · rename_i hm
    rw [bounded, if_neg (by unfold maxExponent; omega), hm]
    cases k with
    | zero => decide +kernel
    | succ j =>
      rw [show -((j + 1 : Nat) : Int) + 1 = -(j : Int) by omega, ceil?_finite, pow2_eq, pow2_eq]
      congr 2
      apply eq_of_forall_ge_iff
      intro c
      rw [ceilDiv_le_iff_le_mul (Nat.two_pow_pos _), ceilDiv_le_iff_le_mul (Nat.two_pow_pos _),
        pow_succ 2 j, pow_succ 2 52, Nat.mul_right_comm]
      exact (Nat.mul_le_mul_right_iff (by decide)).symm
  · rw [bounded, if_neg (by unfold maxExponent; omega), ceil?_finite]

private theorem scaled_neg (num den k : Nat) :
    scaled num den (-(k : Int)) = roundHalfEven (num * 2 ^ k) den := by
  simp [scaled, pow2_eq]

theorem ofQuotient_pos (negative : Bool) {num : Nat} (den : Nat) (hn : 0 < num) :
    ofQuotient negative num den =
      carried negative (scaled num den (quotientExponent num den)) (quotientExponent num den) := by
  simp [ofQuotient, hn.ne']

/-- The binary64 quotient of an integer up to `2 ^ 53` by another has the ceiling of the exact
quotient, unless it is rounded down to zero. -/
theorem ceil?_ofQuotient {num den : Nat} (hb : num ≤ 2 ^ 53) (hd : 0 < den) :
    (ofQuotient false num den).ceil? =
      some ↑(if num * 2 ^ 1075 ≤ den then 0 else num ⌈/⌉ den) := by
  rcases Nat.eq_zero_or_pos num with rfl | hn
  · rw [ofQuotient, if_pos rfl, show minExponent = -(1074 : Nat) from rfl, ceil?_finite, zero_ceilDiv,
      zero_ceilDiv, ite_self]
  rcases le_or_gt (quotientExponent num den) 0 with he | he
  · obtain ⟨hmin, hspec⟩ := quotientExponent_spec den hn
    obtain ⟨k, hk⟩ : ∃ k : Nat, quotientExponent num den = -(k : Int) :=
      ⟨(-quotientExponent num den).toNat, by omega⟩
    have hz : (-(k : Int)).toNat = 0 := by omega
    rw [hk, hz, neg_neg, Int.toNat_natCast, pow_zero, Nat.mul_one] at hspec
    rw [ofQuotient_pos false den hn, hk, ceil?_carried, scaled_neg]
    by_cases hexact : den * 2 ^ 52 ≤ num * 2 ^ k
    · have hlow : ¬ num * 2 ^ 1075 ≤ den := by
        have hk1074 : k ≤ 1074 := by unfold minExponent at hmin; omega
        have hpow : 2 ^ k ≤ 2 ^ 1074 := by gcongr; decide
        rw [pow_succ 2 1074]
        generalize 2 ^ k = p, 2 ^ 1074 = q at hpow hexact ⊢
        nlinarith
      rw [roundHalfEven_ceilDiv hd hb hexact, if_neg hlow]
    · obtain rfl : k = 1074 := by
        have := hspec.resolve_right hexact
        unfold minExponent at this
        omega
      simp only [roundHalfEven_ceilDiv_of_lt hn hd (by decide) (Nat.lt_of_not_le hexact), Nat.reduceAdd]
  · obtain ⟨rfl, rfl⟩ := eq_of_quotientExponent_pos hb hn hd he
    decide +kernel

end Binary64

end LineCensus.Numeric
