import LineCensus.Proofs.Rounding

/-! Correct rounding to binary64. The rounded quotient of two integers is the number of the format that is nearest to
the exact one, and of two that are equally near the one with the even significand. What the format holds is not
changed by rounding, and all else is within half a unit of its last digit. -/
namespace LineCensus.Numeric

private theorem roundHalfEven_cases (a d : Nat) :
    (roundHalfEven a d = a / d ∧ 2 * (a % d) ≤ d ∧ (2 * (a % d) = d → a / d % 2 = 0)) ∨
      (roundHalfEven a d = a / d + 1 ∧ d ≤ 2 * (a % d) ∧ (2 * (a % d) = d → a / d % 2 = 1)) := by
  unfold roundHalfEven
  dsimp only
  split
  · rename_i h
    simp only [Bool.or_eq_true, decide_eq_true_eq, Bool.and_eq_true, beq_iff_eq] at h
    exact .inl ⟨rfl, by omega⟩
  · rename_i h
    simp only [Bool.or_eq_true, decide_eq_true_eq, Bool.and_eq_true, beq_iff_eq] at h
    exact .inr ⟨rfl, by omega⟩

private theorem cast_div_eq {a d : Nat} (hd : 0 < d) : (a : ℚ) / d = (a / d : Nat) + (a % d : Nat) / d := by
  have hne : (d : ℚ) ≠ 0 := Nat.cast_ne_zero.mpr hd.ne'
  have hsum : ((a / d : Nat) : ℚ) * d + (a % d : Nat) = a := mod_cast Nat.div_add_mod' a d
  rw [← hsum]
  field_simp

private theorem cast_mod_div_le_one {a d : Nat} (hd : 0 < d) : ((a % d : Nat) / d : ℚ) ≤ 1 :=
  div_le_one_of_le₀ (mod_cast (Nat.mod_lt a hd).le) (Nat.cast_nonneg d)

private theorem div_le_half_iff {r d : Nat} (hd : 0 < d) : (r / d : ℚ) ≤ 1 / 2 ↔ 2 * r ≤ d := by
  rw [div_le_div_iff₀ (Nat.cast_pos.mpr hd) two_pos, one_mul, mul_comm]
  exact_mod_cast Iff.rfl

private theorem half_le_div_iff {r d : Nat} (hd : 0 < d) : 1 / 2 ≤ (r / d : ℚ) ↔ d ≤ 2 * r := by
  rw [div_le_div_iff₀ two_pos (Nat.cast_pos.mpr hd), one_mul, mul_comm]
  exact_mod_cast Iff.rfl

private theorem abs_roundHalfEven_sub_le {a d : Nat} (hd : 0 < d) : |(roundHalfEven a d : ℚ) - a / d| ≤ 1 / 2 := by
  have hnonneg : (0 : ℚ) ≤ (a % d : Nat) / d := by positivity
  have hone := cast_mod_div_le_one (a := a) hd
  rw [cast_div_eq hd, abs_le]
  rcases roundHalfEven_cases a d with ⟨hround, hrest, -⟩ | ⟨hround, hrest, -⟩
  · have hhalf := (div_le_half_iff hd).mpr hrest
    rw [hround]
    constructor <;> linarith
  · have hhalf := (half_le_div_iff hd).mpr hrest
    rw [hround, Nat.cast_succ]
    constructor <;> linarith

private theorem even_roundHalfEven {a d : Nat} (hd : 0 < d) (h : |(roundHalfEven a d : ℚ) - a / d| = 1 / 2) :
    roundHalfEven a d % 2 = 0 := by
  have hnonneg : (0 : ℚ) ≤ (a % d : Nat) / d := by positivity
  rw [cast_div_eq hd] at h
  rcases roundHalfEven_cases a d with ⟨hround, hrest, heven⟩ | ⟨hround, hrest, hodd⟩
  · rw [hround, sub_add_cancel_left, abs_neg, abs_of_nonneg hnonneg] at h
    have := (half_le_div_iff hd).mp h.ge
    rw [hround]
    exact heven (by omega)
  · have hone := cast_mod_div_le_one (a := a) hd
    rw [hround, Nat.cast_succ, add_sub_add_left_eq_sub, abs_of_nonneg (sub_nonneg.mpr hone)] at h
    have := (div_le_half_iff hd).mp (by linarith : ((a % d : Nat) / d : ℚ) ≤ 1 / 2)
    have := hodd (by omega)
    omega

/-- No integer is nearer than the rounded one, and if another one is equally near the rounded one is even. -/
theorem roundHalfEven_nearest {a d : Nat} (hd : 0 < d) (k : ℤ) :
    |(roundHalfEven a d : ℚ) - a / d| ≤ |(k : ℚ) - a / d| ∧
      (k ≠ roundHalfEven a d → |(k : ℚ) - a / d| = |(roundHalfEven a d : ℚ) - a / d| →
        roundHalfEven a d % 2 = 0) := by
  by_cases hk : k = roundHalfEven a d
  · rw [hk, Int.cast_natCast]
    exact ⟨le_rfl, fun hne => absurd rfl hne⟩
  · have hhalf := abs_roundHalfEven_sub_le (a := a) hd
    have hfar : (1 : ℚ) ≤ |(k : ℚ) - roundHalfEven a d| := by
      exact_mod_cast Int.one_le_abs (sub_ne_zero.mpr hk)
    have hsum : |(k : ℚ) - roundHalfEven a d| ≤ |(k : ℚ) - a / d| + |(roundHalfEven a d : ℚ) - a / d| := by
      rw [abs_sub_comm (roundHalfEven a d : ℚ)]
      exact abs_sub_le _ _ _
    exact ⟨by linarith, fun _ heq => even_roundHalfEven hd (by linarith)⟩

/-- The half behind an odd integer is rounded up. -/
theorem roundHalfEven_le_iff_of_odd {a d k : Nat} (hd : 0 < d) (hk : k % 2 = 1) :
    roundHalfEven a d ≤ k ↔ (a / d : ℚ) < k + 1 / 2 := by
  have hhalf := abs_le.mp (abs_roundHalfEven_sub_le (a := a) hd)
  constructor
  · intro hle
    have hcast : (roundHalfEven a d : ℚ) ≤ k := by exact_mod_cast hle
    refine lt_of_le_of_ne (by linarith) fun htie => ?_
    have heq : roundHalfEven a d = k := by
      rw [htie] at hhalf
      exact le_antisymm hle (by exact_mod_cast (by linarith : (k : ℚ) ≤ roundHalfEven a d))
    have heven := even_roundHalfEven (a := a) hd (by rw [heq, htie, sub_add_cancel_left]; norm_num)
    omega
  · intro hlt
    have : (roundHalfEven a d : ℚ) < k + 1 := by linarith
    exact Nat.lt_succ_iff.mp (by exact_mod_cast this)

private theorem roundHalfEven_mul_right (a d : Nat) {c : Nat} (hc : 0 < c) :
    roundHalfEven (a * c) (d * c) = roundHalfEven a d := by
  have hlt : 2 * (a % d * c) < d * c ↔ 2 * (a % d) < d := by
    rw [← Nat.mul_assoc, Nat.mul_lt_mul_right hc]
  have heq : 2 * (a % d * c) = d * c ↔ 2 * (a % d) = d := by
    rw [← Nat.mul_assoc, Nat.mul_right_cancel_iff hc]
  simp only [roundHalfEven, Nat.mul_div_mul_right _ _ hc, Nat.mul_mod_mul_right, hlt,
    Bool.beq_eq_decide_eq, heq]

/-- Rounding depends on the quotient alone. -/
theorem roundHalfEven_congr {a d a' d' : Nat} (hd : 0 < d) (hd' : 0 < d') (h : (a / d : ℚ) = a' / d') :
    roundHalfEven a d = roundHalfEven a' d' := by
  rw [div_eq_div_iff (Nat.cast_ne_zero.mpr hd.ne') (Nat.cast_ne_zero.mpr hd'.ne')] at h
  have hcross : a * d' = a' * d := by exact_mod_cast h
  rw [← roundHalfEven_mul_right a d hd', hcross, Nat.mul_comm d, roundHalfEven_mul_right a' d' hd]

section Grid

variable {base num den : Nat}

private theorem zpow_mul_toNat (hb : 0 < base) (e : ℤ) : (base : ℚ) ^ e * base ^ (-e).toNat = base ^ e.toNat := by
  rw [← zpow_natCast, ← zpow_natCast, ← zpow_add₀ (Nat.cast_ne_zero.mpr hb.ne')]
  congr 1
  omega

private theorem grid_quotient (hb : 0 < base) (hd : 0 < den) (e : ℤ) :
    ((num * base ^ (-e).toNat : Nat) : ℚ) / (den * base ^ e.toNat : Nat) = num / den / base ^ e := by
  have hden : (den : ℚ) ≠ 0 := Nat.cast_ne_zero.mpr hd.ne'
  have hbase : (base : ℚ) ≠ 0 := Nat.cast_ne_zero.mpr hb.ne'
  push_cast
  rw [← zpow_mul_toNat hb e]
  field_simp

theorem lt_grid_iff (hb : 0 < base) (hd : 0 < den) (e : ℤ) (k : Nat) :
    num * base ^ (-e).toNat < den * base ^ e.toNat * base ^ k ↔ (num / den : ℚ) < base ^ (e + k) := by
  have hbase : (0 : ℚ) < base := Nat.cast_pos.mpr hb
  have hpos : (0 : ℚ) < (den * base ^ e.toNat : Nat) := by positivity
  have hstep : (num / den / base ^ e : ℚ) < base ^ k ↔ (num / den : ℚ) < base ^ (e + k) := by
    rw [div_lt_iff₀ (by positivity), mul_comm, ← zpow_natCast, ← zpow_add₀ hbase.ne']
  rw [← hstep, ← grid_quotient hb hd e, div_lt_iff₀ hpos, mul_comm ((base : ℚ) ^ k)]
  exact_mod_cast Iff.rfl

/-- A quotient on the grid of multiples of a power of the base: the nearest multiple, ties to even. -/
def onGrid (base num den : Nat) (e : ℤ) : Nat :=
  roundHalfEven (num * base ^ (-e).toNat) (den * base ^ e.toNat)

private theorem abs_grid_sub (q k : ℚ) {unit : ℚ} (hunit : 0 < unit) : |k * unit - q| = |k - q / unit| * unit := by
  rw [← abs_of_pos hunit, ← abs_mul, abs_of_pos hunit]
  congr 1
  field_simp

/-- No multiple of the power is nearer than the rounded one. -/
theorem onGrid_nearest (num : Nat) (hb : 0 < base) (hd : 0 < den) (e k : ℤ) :
    |(onGrid base num den e : ℚ) * base ^ e - num / den| ≤ |(k : ℚ) * base ^ e - num / den| ∧
      (k ≠ onGrid base num den e →
        |(k : ℚ) * base ^ e - num / den| = |(onGrid base num den e : ℚ) * base ^ e - num / den| →
          onGrid base num den e % 2 = 0) := by
  have hpos : (0 : ℚ) < base ^ e := by positivity
  have hnearest :=
    roundHalfEven_nearest (a := num * base ^ (-e).toNat) (d := den * base ^ e.toNat) (by positivity) k
  rw [grid_quotient hb hd e] at hnearest
  rw [abs_grid_sub _ _ hpos, abs_grid_sub _ _ hpos, mul_le_mul_iff_left₀ hpos, mul_left_inj' hpos.ne']
  exact hnearest

theorem abs_onGrid_sub_le (hb : 0 < base) (hd : 0 < den) (e : ℤ) :
    |(onGrid base num den e : ℚ) * base ^ e - num / den| ≤ 1 / 2 * base ^ e := by
  have hpos : (0 : ℚ) < base ^ e := by positivity
  have hhalf := abs_roundHalfEven_sub_le (a := num * base ^ (-e).toNat) (d := den * base ^ e.toNat) (by positivity)
  rw [grid_quotient hb hd e] at hhalf
  rw [abs_grid_sub _ _ hpos]
  exact mul_le_mul_of_nonneg_right hhalf hpos.le

theorem onGrid_eq_of_near (hb : 0 < base) (hd : 0 < den) {e : ℤ} {k : Nat}
    (h : |(k : ℚ) * base ^ e - num / den| < 1 / 2 * base ^ e) : onGrid base num den e = k := by
  have hpos : (0 : ℚ) < base ^ e := by positivity
  have hnear := (onGrid_nearest num hb hd e k).1
  rw [Int.cast_natCast] at hnear
  have hsum := abs_sub_le ((onGrid base num den e : ℚ) * base ^ e) (num / den) (k * base ^ e)
  rw [abs_sub_comm (num / den : ℚ), ← sub_mul, abs_mul, abs_of_pos hpos] at hsum
  have hlt : |(onGrid base num den e : ℚ) - k| < 1 := by
    refine lt_of_mul_lt_mul_right ?_ hpos.le
    linarith
  have habs : |(onGrid base num den e : ℤ) - k| < 1 := by exact_mod_cast hlt
  have := Int.abs_lt_one_iff.mp habs
  omega

theorem le_onGrid (hb : 0 < base) (hd : 0 < den) {e : ℤ} {k : Nat} (h : (k : ℚ) * base ^ e ≤ num / den) :
    k ≤ onGrid base num den e := by
  have hpos : (0 : ℚ) < base ^ e := by positivity
  have hden : 0 < den * base ^ e.toNat := by positivity
  refine le_trans ?_ (div_le_roundHalfEven _ _)
  rw [Nat.le_div_iff_mul_le hden]
  rw [← le_div_iff₀ hpos, ← grid_quotient hb hd, le_div_iff₀ (Nat.cast_pos.mpr hden)] at h
  exact_mod_cast h

end Grid

namespace Binary64

def value : Binary64 → ℚ
  | .finite negative m e => (if negative then -1 else 1) * (m * 2 ^ e)
  | .infinite _ => 0

def InFormat : Binary64 → Prop
  | .finite _ m e => m < 2 ^ 53 ∧ minExponent ≤ e ∧ e ≤ maxExponent ∧ (2 ^ 52 ≤ m ∨ e = minExponent)
  | .infinite _ => False

def IsEven : Binary64 → Prop
  | .finite _ m _ => m % 2 = 0
  | .infinite _ => False

/-- A number is a rational correctly rounded: no number of the format is nearer, and if another one is equally near
its significand is even. -/
structure IsNearest (x : Binary64) (q : ℚ) : Prop where
  inFormat : x.InFormat
  nearest : ∀ y : Binary64, y.InFormat → |x.value - q| ≤ |y.value - q|
  even : ∀ y : Binary64, y.InFormat → y.value ≠ x.value → |y.value - q| = |x.value - q| → x.IsEven

private theorem inFormat_zero : zero.InFormat :=
  ⟨by decide, le_rfl, by decide, .inr rfl⟩

@[simp] theorem value_zero : zero.value = 0 := by
  simp [zero, value]

private theorem bits_finite {negative : Bool} {m : Nat} {e : ℤ} (h : (finite negative m e).InFormat) :
    (finite negative m e).bits = (if negative then 2 ^ 63 else 0) + ((e + 1074).toNat * 2 ^ 52 + m) := by
  have hmagnitude : (if m < pow2 52 then m else (e + 1074).toNat * pow2 52 + m) = (e + 1074).toNat * 2 ^ 52 + m := by
    obtain ⟨-, -, -, hnormal | rfl⟩ := h
    · exact if_neg hnormal.not_gt
    · have hzero : (minExponent + 1074).toNat = 0 := rfl
      simp only [hzero, Nat.zero_mul, Nat.zero_add, ite_self]
  rw [bits, hmagnitude]
  cases negative with
  | false => exact (Nat.zero_add _).symm
  | true => exact Nat.add_comm _ _

/-- The bits of the interchange format tell the numbers of the format apart. -/
theorem bits_injective {x y : Binary64} (hx : x.InFormat) (hy : y.InFormat) (h : x.bits = y.bits) : x = y := by
  cases x with
  | infinite => exact hx.elim
  | finite negative m e =>
    cases y with
    | infinite => exact hy.elim
    | finite negative' m' e' =>
      rw [bits_finite hx, bits_finite hy] at h
      obtain ⟨hm, hmin, hmax, hnormal⟩ := hx
      obtain ⟨hm', hmin', hmax', hnormal'⟩ := hy
      simp only [minExponent, maxExponent] at hmin hmax hnormal hmin' hmax' hnormal'
      rw [finite.injEq]
      cases negative <;> cases negative' <;>
        simp only [if_true, Bool.false_eq_true, if_false, reduceCtorEq, true_and, false_and] at h ⊢ <;> omega

section Exponent

variable {num den : Nat}

private theorem lt_two_zpow_iff (hd : 0 < den) (e : ℤ) (k : Nat) :
    num * 2 ^ (-e).toNat < den * 2 ^ e.toNat * 2 ^ k ↔ (num / den : ℚ) < 2 ^ (e + k) :=
  lt_grid_iff two_pos hd e k

private theorem quotientExponent_bounds (hn : 0 < num) (hd : 0 < den) :
    minExponent ≤ quotientExponent num den ∧ (num / den : ℚ) < 2 ^ (quotientExponent num den + 53) ∧
      (quotientExponent num den = minExponent ∨ (2 : ℚ) ^ (quotientExponent num den + 52) ≤ num / den) := by
  obtain ⟨hmin, hlow⟩ := quotientExponent_spec den hn
  refine ⟨hmin, ?_, hlow.imp_right fun hle => ?_⟩
  · set guess : ℤ := (Nat.log2 num : ℤ) - (Nat.log2 den : ℤ) - 52 with hguess
    have hexact : quotientExponent num den =
        max (if num * 2 ^ (-guess).toNat < den * 2 ^ guess.toNat * 2 ^ 52 then guess - 1 else guess)
          minExponent := rfl
    have hmono {e : ℤ} (hle : e ≤ quotientExponent num den) (h : (num / den : ℚ) < 2 ^ (e + 53)) :
        (num / den : ℚ) < 2 ^ (quotientExponent num den + 53) :=
      h.trans_le (zpow_le_zpow_right₀ one_le_two (by omega))
    by_cases hbelow : num * 2 ^ (-guess).toNat < den * 2 ^ guess.toNat * 2 ^ 52
    · rw [if_pos hbelow] at hexact
      refine hmono (e := guess - 1) (by rw [hexact]; exact le_max_left _ _) ?_
      rw [show guess - 1 + 53 = guess + (52 : Nat) by push_cast; ring]
      exact (lt_two_zpow_iff hd guess 52).mp hbelow
    · rw [if_neg hbelow] at hexact
      refine hmono (e := guess) (by rw [hexact]; exact le_max_left _ _) ?_
      have hnum : (num : ℚ) < 2 ^ (Nat.log2 num + 1 : ℤ) := by exact_mod_cast Nat.lt_log2_self
      have hden : (2 : ℚ) ^ (Nat.log2 den : ℤ) ≤ den := by exact_mod_cast Nat.log2_self_le hd.ne'
      rw [div_lt_iff₀ (by positivity)]
      calc (num : ℚ) < 2 ^ (Nat.log2 num + 1 : ℤ) := hnum
        _ = 2 ^ (guess + 53) * 2 ^ (Nat.log2 den : ℤ) := by
          rw [← zpow_add₀ two_ne_zero]
          congr 1
          omega
        _ ≤ 2 ^ (guess + 53) * den := by gcongr
  · rw [← not_lt] at hle ⊢
    exact mt (lt_two_zpow_iff hd _ 52).mpr hle

end Exponent

section Quotient

variable {num den : Nat}

private theorem scaled_nearest (num : Nat) (hd : 0 < den) (e k : ℤ) :
    |(scaled num den e : ℚ) * 2 ^ e - num / den| ≤ |(k : ℚ) * 2 ^ e - num / den| ∧
      (k ≠ scaled num den e →
        |(k : ℚ) * 2 ^ e - num / den| = |(scaled num den e : ℚ) * 2 ^ e - num / den| →
          scaled num den e % 2 = 0) :=
  onGrid_nearest num two_pos hd e k

private theorem abs_scaled_sub_le (hd : 0 < den) (e : ℤ) :
    |(scaled num den e : ℚ) * 2 ^ e - num / den| ≤ 2 ^ (e - 1) := by
  rw [zpow_sub_one₀ two_ne_zero, mul_comm ((2 : ℚ) ^ e), ← one_div]
  exact abs_onGrid_sub_le two_pos hd e

private theorem quotientExponent_le_of_lt (hn : 0 < num) (hd : 0 < den) {k : ℤ} (hk : minExponent + 53 ≤ k)
    (h : (num / den : ℚ) < 2 ^ k) : quotientExponent num den ≤ k - 53 := by
  rcases (quotientExponent_bounds hn hd).2.2 with hmin | hlow
  · omega
  · have := (zpow_lt_zpow_iff_right₀ (one_lt_two : (1 : ℚ) < 2)).mp (hlow.trans_lt h)
    omega

/-- A rounded quotient is a number of the format, and its value is a multiple of the power of two that the
quotient is scaled by. -/
theorem exists_ofQuotient (hn : 0 < num) (hd : 0 < den) (h : (num / den : ℚ) < 2 ^ 1023) :
    ∃ m e, ofQuotient false num den = .finite false m e ∧ (finite false m e).InFormat ∧
      (m * 2 ^ e : ℚ) = scaled num den (quotientExponent num den) * 2 ^ quotientExponent num den ∧
      (scaled num den (quotientExponent num den) % 2 = 0 → m % 2 = 0) := by
  have hmax : quotientExponent num den ≤ 1023 - 53 :=
    quotientExponent_le_of_lt hn hd (by decide) (by exact_mod_cast h)
  obtain ⟨hmin, hhigh, hlow⟩ := quotientExponent_bounds hn hd
  rw [ofQuotient_pos false den hn]
  generalize quotientExponent num den = e at *
  have hle : scaled num den e ≤ 2 ^ 53 := by
    refine roundHalfEven_le (Nat.mul_pos hd (Nat.two_pow_pos _)) ?_
    rw [Nat.mul_comm (2 ^ 53)]
    exact ((lt_two_zpow_iff hd e 53).mpr hhigh).le
  have hge : 2 ^ 52 ≤ scaled num den e ∨ e = minExponent := by
    refine hlow.symm.imp_left fun hlow => ?_
    refine le_trans ?_ (div_le_roundHalfEven _ _)
    refine (Nat.le_div_iff_mul_le (Nat.mul_pos hd (Nat.two_pow_pos _))).mpr ?_
    rw [Nat.mul_comm, ← not_lt]
    exact mt (lt_two_zpow_iff hd e 52).mp (not_lt.mpr hlow)
  rw [carried]
  split
  · rename_i hcarry
    rw [bounded, if_neg (by unfold maxExponent; omega)]
    refine ⟨_, _, rfl, ⟨by decide, by omega, by unfold maxExponent; omega, .inl le_rfl⟩, ?_, fun _ => by decide⟩
    rw [hcarry, zpow_add_one₀ two_ne_zero, pow2_eq, pow2_eq]
    push_cast
    ring
  · rename_i hcarry
    rw [bounded, if_neg (by unfold maxExponent; omega)]
    exact ⟨_, _, rfl, ⟨lt_of_le_of_ne hle hcarry, hmin, by unfold maxExponent; omega, hge⟩, rfl, id⟩

theorem value_finite (m : Nat) (e : ℤ) : (finite false m e).value = m * 2 ^ e :=
  one_mul _

/-- A number of the format whose exponent is not below another one is a multiple of the power of two of that. -/
theorem exists_value_eq (negative : Bool) (m : Nat) {e e' : ℤ} (he : e' ≤ e) :
    ∃ k : ℤ, (finite negative m e).value = k * 2 ^ e' := by
  refine ⟨(if negative then -1 else 1) * (m * 2 ^ (e - e').toNat), ?_⟩
  have hpow : (2 : ℚ) ^ e = 2 ^ (e - e').toNat * 2 ^ e' := by
    rw [← zpow_natCast, ← zpow_add₀ two_ne_zero]
    congr 1
    omega
  rw [value, hpow]
  push_cast
  ring

private theorem value_lt (negative : Bool) {m : Nat} (hm : m < 2 ^ 53) {e e' : ℤ} (he : e' < e) :
    (finite negative m e').value < 2 ^ (e + 52) := by
  have hmag : (m * 2 ^ e' : ℚ) < 2 ^ (e + 52) := by
    calc (m * 2 ^ e' : ℚ) < 2 ^ (53 : ℤ) * 2 ^ e' := by
          gcongr
          exact_mod_cast hm
      _ = 2 ^ (53 + e') := (zpow_add₀ two_ne_zero _ _).symm
      _ ≤ 2 ^ (e + 52) := zpow_le_zpow_right₀ one_le_two (by omega)
  have hnonneg : (0 : ℚ) ≤ m * 2 ^ e' := by positivity
  rw [value]
  split <;> linarith

/-- A number of the format that is no multiple of the power of two lies below all significands of its exponent, and
so it is farther from the quotient than the least of these. -/
theorem exists_multiple_or_lt (hd : 0 < den) {exponent : ℤ}
    (hlow : exponent = minExponent ∨ (2 : ℚ) ^ (exponent + 52) ≤ num / den) {y : Binary64} (hy : y.InFormat) :
    (∃ k : ℤ, y.value = k * 2 ^ exponent) ∨
      |(scaled num den exponent : ℚ) * 2 ^ exponent - num / den| < |y.value - num / den| := by
  cases y with
  | infinite => exact hy.elim
  | finite negative m e =>
    obtain ⟨hm, hmin, -, -⟩ := hy
    rcases le_or_gt exponent e with he | he
    · exact .inl (exists_value_eq negative m he)
    · have hlow := hlow.resolve_left (by omega)
      have hbelow := value_lt negative hm he
      have hleast : ((2 ^ 52 : ℤ) : ℚ) * 2 ^ exponent = 2 ^ (exponent + 52) := by
        rw [zpow_add₀ two_ne_zero, mul_comm]
        norm_num
      have hle := (scaled_nearest num hd exponent (2 ^ 52)).1
      rw [hleast, abs_of_nonpos (sub_nonpos.mpr hlow)] at hle
      refine .inr (hle.trans_lt ?_)
      rw [abs_of_nonpos (sub_nonpos.mpr (hbelow.le.trans hlow))]
      linarith

/-- The quotient of two integers is correctly rounded wherever it is in the range of the format. -/
theorem isNearest_ofQuotient (hd : 0 < den) (h : (num / den : ℚ) < 2 ^ 1023) :
    (ofQuotient false num den).IsNearest (num / den) := by
  rcases Nat.eq_zero_or_pos num with rfl | hn
  · rw [ofQuotient, if_pos rfl, Nat.cast_zero, zero_div, ← zero]
    refine ⟨inFormat_zero, fun y _ => ?_, fun _ _ _ _ => rfl⟩
    rw [value_zero, sub_zero, abs_zero]
    exact abs_nonneg _
  · obtain ⟨m, e, hfinite, hformat, hvalue, heven⟩ := exists_ofQuotient hn hd h
    obtain ⟨-, -, hlow⟩ := quotientExponent_bounds hn hd
    rw [← value_finite] at hvalue
    rw [hfinite]
    refine ⟨hformat, fun y hy => ?_, fun y hy hne heq => ?_⟩
    · rw [hvalue]
      rcases exists_multiple_or_lt hd hlow hy with ⟨k, hk⟩ | hlt
      · rw [hk]
        exact (scaled_nearest num hd _ k).1
      · exact hlt.le
    · rw [hvalue] at hne heq
      rcases exists_multiple_or_lt hd hlow hy with ⟨k, hk⟩ | hlt
      · rw [hk] at hne heq
        refine heven ((scaled_nearest num hd _ k).2 ?_ heq)
        rintro rfl
        exact hne (by rw [Int.cast_natCast])
      · exact absurd heq hlt.ne'

/-- The nearest number to a quotient below a power of two is off by half a unit of 53 digits at most. -/
theorem IsNearest.abs_sub_le {x : Binary64} (hx : x.IsNearest (num / den)) (hd : 0 < den) {k : ℤ}
    (hmin : minExponent + 53 ≤ k) (hmax : k ≤ 1023) (h : (num / den : ℚ) < 2 ^ k) :
    |x.value - num / den| ≤ 2 ^ (k - 54) := by
  rcases Nat.eq_zero_or_pos num with rfl | hn
  · have hle := hx.nearest zero inFormat_zero
    rw [value_zero, Nat.cast_zero, zero_div, sub_zero, sub_zero, abs_zero] at hle
    rw [Nat.cast_zero, zero_div, sub_zero]
    exact hle.trans (by positivity)
  · have hrange : (num / den : ℚ) < 2 ^ 1023 := by
      rw [← zpow_natCast]
      exact h.trans_le (zpow_le_zpow_right₀ one_le_two hmax)
    obtain ⟨m, e, -, hformat, hvalue, -⟩ := exists_ofQuotient hn hd hrange
    have hexponent := quotientExponent_le_of_lt hn hd hmin h
    rw [← value_finite] at hvalue
    calc |x.value - num / den| ≤ |(finite false m e).value - num / den| := hx.nearest _ hformat
      _ ≤ 2 ^ (quotientExponent num den - 1) := by
        rw [hvalue]
        exact abs_scaled_sub_le hd _
      _ ≤ 2 ^ (k - 54) := zpow_le_zpow_right₀ one_le_two (by omega)

end Quotient

section Nearest

variable {x y : Binary64} {q : ℚ}

private theorem IsNearest.value_eq (hx : x.IsNearest q) (hy : y.InFormat) (h : y.value = q) : x.value = q := by
  have hle := hx.nearest y hy
  rw [h, sub_self, abs_zero] at hle
  exact sub_eq_zero.mp (abs_nonpos_iff.mp hle)

private theorem IsNearest.le_value (hx : x.IsNearest q) (hy : y.InFormat) (h : y.value ≤ q) : y.value ≤ x.value := by
  have hle := hx.nearest y hy
  rw [abs_of_nonpos (sub_nonpos.mpr h)] at hle
  linarith [neg_abs_le (x.value - q)]

/-- A fraction of at most 53 binary digits is a number of the format. -/
theorem exists_inFormat {n j : Nat} (hn : n < 2 ^ 53) (hj : j ≤ 1074) :
    ∃ y : Binary64, y.InFormat ∧ y.value = n / 2 ^ j := by
  rcases Nat.eq_zero_or_pos n with rfl | hpos
  · exact ⟨zero, inFormat_zero, by simp⟩
  · have hd : 0 < 2 ^ j := Nat.two_pow_pos j
    have hlt : (n / (2 ^ j : Nat) : ℚ) < 2 ^ (53 - j : ℤ) := by
      rw [Nat.cast_pow, Nat.cast_ofNat, zpow_sub₀ two_ne_zero, zpow_natCast]
      gcongr
      exact_mod_cast hn
    have hrange : (n / (2 ^ j : Nat) : ℚ) < 2 ^ 1023 := by
      rw [← zpow_natCast]
      exact hlt.trans_le (zpow_le_zpow_right₀ one_le_two (by push_cast; omega))
    obtain ⟨m, e, -, hformat, hvalue, -⟩ := exists_ofQuotient hpos hd hrange
    have hexponent := quotientExponent_le_of_lt hpos hd (by unfold minExponent; omega) hlt
    rw [← value_finite] at hvalue
    refine ⟨_, hformat, ?_⟩
    rw [hvalue]
    generalize quotientExponent n (2 ^ j) = exponent at hexponent ⊢
    have hpow : (2 : ℚ) ^ (-j - exponent).toNat * 2 ^ exponent = (2 ^ j)⁻¹ := by
      rw [← zpow_natCast, ← zpow_natCast, ← zpow_add₀ two_ne_zero, ← zpow_neg]
      congr 1
      omega
    have hgrid : ((n * 2 ^ (-j - exponent).toNat : ℤ) : ℚ) * 2 ^ exponent = n / (2 ^ j : Nat) := by
      push_cast
      rw [mul_assoc, hpow, div_eq_mul_inv]
    have hle := (scaled_nearest n hd exponent (n * 2 ^ (-j - exponent).toNat)).1
    rw [hgrid, sub_self, abs_zero] at hle
    rw [sub_eq_zero.mp (abs_nonpos_iff.mp hle)]
    push_cast
    rfl

theorem IsNearest.value_of_dyadic (hx : x.IsNearest q) {n j : Nat} (hq : q = n / 2 ^ j) (hn : n < 2 ^ 53)
    (hj : j ≤ 1074) : x.value = q := by
  obtain ⟨y, hformat, hy⟩ := exists_inFormat hn hj
  exact hx.value_eq hformat (hy.trans hq.symm)

theorem IsNearest.value_of_nat {n : Nat} (hx : x.IsNearest n) (hn : n < 2 ^ 53) : x.value = n :=
  hx.value_of_dyadic (by rw [pow_zero, div_one]) hn (Nat.zero_le 1074)

theorem IsNearest.one_le_value (hx : x.IsNearest q) (h : 1 ≤ q) : 1 ≤ x.value := by
  obtain ⟨y, hformat, hy⟩ := exists_inFormat (n := 1) (j := 0) (by decide) (by decide)
  rw [Nat.cast_one, pow_zero, div_one] at hy
  rw [← hy] at h ⊢
  exact hx.le_value hformat h

theorem natCast_in_range {n : Nat} (hn : n < 2 ^ 53) : (n : ℚ) < 2 ^ 1023 :=
  calc (n : ℚ) < 2 ^ 53 := mod_cast hn
    _ < 2 ^ 1023 := pow_lt_pow_right₀ one_lt_two (by decide)

end Nearest

section Operations

/-- A quotient in the range of the format is rounded to a finite number that is not negative. -/
theorem exists_ofQuotient_isNearest {num den : Nat} (hd : 0 < den) (h : (num / den : ℚ) < 2 ^ 1023) :
    ∃ m e, ofQuotient false num den = .finite false m e ∧ (finite false m e).IsNearest (num / den) := by
  have hnearest := isNearest_ofQuotient hd h
  rcases Nat.eq_zero_or_pos num with rfl | hn
  · exact ⟨_, _, rfl, hnearest⟩
  · obtain ⟨m, e, hfinite, -⟩ := exists_ofQuotient hn hd h
    exact ⟨m, e, hfinite, hfinite ▸ hnearest⟩

/-- An integer of at most 53 binary digits is held exactly. -/
theorem exists_ofQuotient_one {n : Nat} (hn : n < 2 ^ 53) :
    ∃ m e, ofQuotient false n 1 = .finite false m e ∧ (finite false m e).value = n := by
  have hrange : (n / (1 : Nat) : ℚ) < 2 ^ 1023 := by
    rw [Nat.cast_one, div_one]
    exact natCast_in_range hn
  obtain ⟨m, e, hfinite, hnearest⟩ := exists_ofQuotient_isNearest one_pos hrange
  rw [Nat.cast_one, div_one] at hnearest
  exact ⟨m, e, hfinite, hnearest.value_of_nat hn⟩

theorem exists_ofInt?_eq {n : Nat} (hn : n < 2 ^ 53) :
    ∃ m e, ofInt? n = some (.finite false m e) ∧ (finite false m e).value = n := by
  have hsign : decide ((n : ℤ) < 0) = false := decide_eq_false (by omega)
  obtain ⟨m, e, hfinite, hvalue⟩ := exists_ofQuotient_one hn
  refine ⟨m, e, ?_, hvalue⟩
  rw [ofInt?, hsign, Int.natAbs_natCast, hfinite]

theorem exists_ofRatio?_isNearest {num den : Nat} (hd : 0 < den) (h : (num / den : ℚ) < 2 ^ 1023) :
    ∃ m e, ofRatio? num den = some (.finite false m e) ∧ (finite false m e).IsNearest (num / den) := by
  obtain ⟨m, e, hfinite, hnearest⟩ := exists_ofQuotient_isNearest hd h
  have hsign : (decide ((num : Int) < 0) != decide ((den : Int) < 0)) = false := by
    simp [Int.not_lt.mpr (Int.natCast_nonneg _)]
  refine ⟨m, e, ?_, hnearest⟩
  rw [ofRatio?, hsign, Int.natAbs_natCast, Int.natAbs_natCast, hfinite]

theorem numerator_div_denominator (m : Nat) (e : ℤ) :
    (numerator m e / denominator e : ℚ) = (finite false m e).value := by
  have hpow : (2 : ℚ) ^ e * 2 ^ (-e).toNat = 2 ^ e.toNat := zpow_mul_toNat two_pos e
  rw [value_finite, numerator, denominator, pow2_eq, pow2_eq]
  push_cast
  rw [← hpow]
  field_simp

theorem denominator_pos (e : ℤ) : 0 < denominator e :=
  Nat.two_pow_pos _

variable {m n : Nat} {e : ℤ}

/-- A product with an integer is correctly rounded. -/
theorem exists_timesNat_isNearest (h : (finite false m e).value * n < 2 ^ 1023) :
    ∃ m' e', (finite false m e).timesNat n = .finite false m' e' ∧
      (finite false m' e').IsNearest ((finite false m e).value * n) := by
  have hquotient : ((numerator m e * n : Nat) / denominator e : ℚ) = (finite false m e).value * n := by
    rw [← numerator_div_denominator]
    push_cast
    ring
  rw [← hquotient] at h ⊢
  exact exists_ofQuotient_isNearest (denominator_pos e) h

/-- A quotient by an integer is correctly rounded. -/
theorem exists_overNat_isNearest (hn : 0 < n) (h : (finite false m e).value / n < 2 ^ 1023) :
    ∃ m' e', (finite false m e).overNat n = .finite false m' e' ∧
      (finite false m' e').IsNearest ((finite false m e).value / n) := by
  have hquotient : (numerator m e / (denominator e * n : Nat) : ℚ) = (finite false m e).value / n := by
    rw [← numerator_div_denominator, div_div]
    push_cast
    rfl
  rw [← hquotient] at h ⊢
  exact exists_ofQuotient_isNearest (Nat.mul_pos (denominator_pos e) hn) h

theorem atLeast_iff (m : Nat) (e : ℤ) (n : Nat) :
    (finite false m e).atLeast n = true ↔ n ≤ (finite false m e).value := by
  have hpos : (0 : ℚ) < denominator e := Nat.cast_pos.mpr (denominator_pos e)
  rw [← numerator_div_denominator, le_div_iff₀ hpos, atLeast, if_neg Bool.false_ne_true, decide_eq_true_eq]
  exact_mod_cast Iff.rfl

theorem ceil_div_eq_ceilDiv (num : Nat) {den : Nat} (hd : 0 < den) :
    ⌈(num / den : ℚ)⌉ = (num ⌈/⌉ den : Nat) := by
  have hpos : (0 : ℚ) < den := Nat.cast_pos.mpr hd
  rw [← Int.natCast_ceil_eq_ceil (by positivity), Nat.cast_inj]
  apply eq_of_forall_ge_iff
  intro c
  rw [Nat.ceil_le, div_le_iff₀ hpos, ceilDiv_le_iff_le_mul hd, Nat.mul_comm]
  exact_mod_cast Iff.rfl

theorem ceil?_eq_ceil_value (m : Nat) (e : ℤ) : (finite false m e).ceil? = some ⌈(finite false m e).value⌉ := by
  rw [← numerator_div_denominator, ceil_div_eq_ceilDiv _ (denominator_pos e)]
  rfl

end Operations
end Binary64
end LineCensus.Numeric
