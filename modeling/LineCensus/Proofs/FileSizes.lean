import LineCensus.Proofs.DecimalReading
import LineCensus.Report.FileSize

/-! What the size of a file shows. The divisions by 1024 are exact, and the number is the size in its unit rounded to
hundredths. The unit is chosen before that, so that a size just below the next unit is shown as 1024 of its own. -/
namespace LineCensus

namespace Numeric.Binary64

variable {m k : Nat} {e step : ℤ} {x : Binary64}

/-- Rounding to hundredths is correctly rounded twice: to an integer number of hundredths, and that to binary64. -/
theorem exists_roundHundredths_isNearest {n d : Nat} (hd : 0 < d) (hvalue : (finite false m e).value = n / d)
    (h : (roundHalfEven (100 * n) d / 100 : ℚ) < 2 ^ 1023) :
    ∃ m' e', (finite false m e).roundHundredths = .finite false m' e' ∧
      (finite false m' e').IsNearest (roundHalfEven (100 * n) d / 100) := by
  have hsame : roundHalfEven (numerator m e * 100) (denominator e) = roundHalfEven (100 * n) d := by
    refine roundHalfEven_congr (denominator_pos e) hd ?_
    push_cast
    rw [mul_div_right_comm, numerator_div_denominator, hvalue]
    ring
  rw [roundHundredths, hsame]
  exact exists_ofQuotient_isNearest (by decide) h

private theorem abs_value_sub_hundredths_le (hmax : k ≤ 100 * 2 ^ 23) (hx : x.IsNearest (k / 100)) :
    |x.value - k / 100| ≤ 1 / 2 ^ 30 := by
  have hlt : (k / 100 : ℚ) < 2 ^ (24 : ℤ) := by
    have : (k : ℚ) ≤ 100 * 2 ^ 23 := by exact_mod_cast hmax
    rw [div_lt_iff₀ (by norm_num)]
    norm_num
    linarith
  refine (@IsNearest.abs_sub_le k 100 x hx (by decide) 24 (by decide) (by decide) hlt).trans_eq ?_
  norm_num

private theorem neg_five_le_step {y : ℚ} (hone : 1 ≤ y) (hy : y < 10 ^ (step + 6)) : -5 ≤ step := by
  have hlt : (10 : ℚ) ^ (0 : ℤ) < 10 ^ (step + 6) := by
    rw [zpow_zero]
    exact hone.trans_lt hy
  have := (zpow_lt_zpow_iff_right₀ (by norm_num : (1 : ℚ) < 10)).mp hlt
  omega

private theorem step_le_neg_two {y : ℚ} (hy : y < 10 ^ 4) (hlow : (10 : ℚ) ^ (step + 5) ≤ y) : step ≤ -2 := by
  have hlt : (10 : ℚ) ^ (step + 5) < 10 ^ (4 : ℤ) := hlow.trans_lt hy
  have := (zpow_lt_zpow_iff_right₀ (by norm_num : (1 : ℚ) < 10)).mp hlt
  omega

/-- A unit up to the hundredth divides every number of hundredths. -/
theorem exists_mul_eq_hundredths (k : Nat) (hstep : step ≤ -2) : ∃ n : Nat, (n * 10 ^ step : ℚ) = k / 100 := by
  have hpow : (10 : ℚ) ^ (-2 - step).toNat * 10 ^ step = 10 ^ (-2 : ℤ) := by
    rw [← zpow_natCast, ← zpow_add₀ (by norm_num)]
    congr 1
    omega
  refine ⟨k * 10 ^ (-2 - step).toNat, ?_⟩
  push_cast
  rw [mul_assoc, hpow]
  norm_num
  ring

/-- The text of a number of hundredths shows it to six digits: below a million of them the text is exact. -/
theorem exists_readDecimal?_hundredths (hone : 100 ≤ k) (hmax : k ≤ 100 * 2 ^ 23)
    (hx : (finite false m e).IsNearest (k / 100)) :
    ∃ v, readDecimal? (finite false m e).general.toList = some v ∧ 1 ≤ v ∧ |v - k / 100| ≤ v / 10 ^ 5 ∧
      (k < 10 ^ 6 → v = k / 100) := by
  have hone : (100 : ℚ) ≤ k := by exact_mod_cast hone
  have hoff := abs_value_sub_hundredths_le hmax hx
  have hvalue := hx.one_le_value (by linarith)
  have hm : 0 < m := by
    rw [Nat.pos_iff_ne_zero]
    rintro rfl
    rw [value_finite, Nat.cast_zero, zero_mul] at hvalue
    exact absurd hvalue (by norm_num)
  obtain ⟨digits, step, hread, hlow, hhigh, hdigits, hnear, hexact⟩ := exists_readDecimal?_general hm e
  have hunit : (10 : ℚ) ^ (-5 : ℤ) ≤ 10 ^ step := zpow_le_zpow_right₀ (by norm_num) (neg_five_le_step hvalue hhigh)
  have hshown : (10 : ℚ) ^ 5 * 10 ^ step ≤ digits * 10 ^ step := by
    gcongr
    exact_mod_cast hdigits
  norm_num at hunit hoff
  refine ⟨_, hread, by linarith, ?_, fun hk => ?_⟩
  · have hsum := abs_sub_le (digits * 10 ^ step : ℚ) (finite false m e).value (k / 100)
    rw [le_div_iff₀ (by norm_num)]
    linarith
  · have hk : (k : ℚ) + 1 ≤ 10 ^ 6 := by exact_mod_cast hk
    have hsmall : (finite false m e).value < 10 ^ 4 := by
      have := le_abs_self ((finite false m e).value - k / 100)
      linarith
    obtain ⟨n, hn⟩ := exists_mul_eq_hundredths k (step_le_neg_two hsmall hlow)
    rw [hexact n (by rw [hn, abs_sub_comm]; linarith), hn]

end Numeric.Binary64

namespace Report

open Numeric (Binary64 div_le_roundHalfEven positional readDecimal? roundHalfEven roundHalfEven_le
  roundHalfEven_le_iff_of_odd toList_stripPlaces)

/-- A division by 1024 of a size of at most 53 binary digits is exact. -/
theorem exists_overNat_exact {m : Nat} {e : ℤ} {b i : Nat} (hb : b < 2 ^ 53) (hi : 10 * (i + 1) ≤ 1074)
    (hvalue : (Binary64.finite false m e).value = b / 1024 ^ i) :
    ∃ m' e', (Binary64.finite false m e).overNat 1024 = .finite false m' e' ∧
      (Binary64.finite false m' e').value = b / 1024 ^ (i + 1) := by
  have hquotient : (Binary64.finite false m e).value / (1024 : Nat) = b / 1024 ^ (i + 1) := by
    rw [hvalue, div_div, pow_succ]
    norm_num
  have hpow : (1024 : ℚ) ^ (i + 1) = 2 ^ (10 * (i + 1)) := by
    rw [pow_mul]
    norm_num
  have hrange : (b / 1024 ^ (i + 1) : ℚ) < 2 ^ 1023 :=
    (div_le_self (Nat.cast_nonneg b) (one_le_pow₀ (by norm_num))).trans_lt (Binary64.natCast_in_range hb)
  rw [← hquotient] at hrange
  obtain ⟨m', e', hover, hnearest⟩ := Binary64.exists_overNat_isNearest (by decide) hrange
  rw [hquotient] at hnearest
  exact ⟨m', e', hover, hnearest.value_of_dyadic (by rw [hpow]) hb hi⟩

/-- A size is divided while it is at least 1024 and there is a unit left, and each division is exact. -/
theorem exists_scaleSize {units : List String} (hne : units ≠ []) {m : Nat} {e : ℤ} {b i : Nat} (hb : b < 2 ^ 53)
    (hi : 10 * (i + units.length) ≤ 1074) (hvalue : (Binary64.finite false m e).value = b / 1024 ^ i)
    (hone : 1024 ^ i ≤ b) :
    ∃ j unit m' e', scaleSize (.finite false m e) units = (.finite false m' e', unit) ∧ units[j]? = some unit ∧
      (Binary64.finite false m' e').value = b / 1024 ^ (i + j) ∧ 1024 ^ (i + j) ≤ b ∧
      (j + 1 < units.length → b < 1024 ^ (i + j + 1)) := by
  induction units generalizing m e i with
  | nil => exact absurd rfl hne
  | cons unit rest ih =>
    cases rest with
    | nil => exact ⟨0, unit, m, e, rfl, rfl, hvalue, hone, fun h => absurd h (by simp)⟩
    | cons next rest =>
      have hstep : (Binary64.finite false m e).atLeast 1024 = true ↔ 1024 ^ (i + 1) ≤ b := by
        rw [Binary64.atLeast_iff, hvalue, le_div_iff₀ (by positivity), pow_succ']
        exact_mod_cast Iff.rfl
      rw [scaleSize.eq_3 _ _ _ (List.cons_ne_nil _ _)]
      split
      · rename_i hat
        rw [List.length_cons] at hi
        obtain ⟨m', e', hover, hexact⟩ := exists_overNat_exact hb (by omega) hvalue
        obtain ⟨j, last, m'', e'', hscale, hunit, hresult, hreached, hbelow⟩ :=
          ih (List.cons_ne_nil _ _) (by omega) hexact (hstep.mp hat)
        have hcount : i + 1 + j = i + (j + 1) := by omega
        rw [hcount] at hresult hreached hbelow
        rw [hover]
        exact ⟨j + 1, last, m'', e'', hscale, hunit, hresult, hreached,
          fun hlt => hbelow (Nat.lt_of_succ_lt_succ hlt)⟩
      · rename_i hat
        exact ⟨0, unit, m, e, rfl, rfl, hvalue, hone, fun _ => not_le.mp (mt hstep.mpr hat)⟩

def hundredths (b i : Nat) : Nat :=
  roundHalfEven (100 * b) (1024 ^ i)

section Hundredths

variable {b i : Nat}

private theorem le_hundredths (h : 1024 ^ i ≤ b) : 100 ≤ hundredths b i := by
  refine le_trans ?_ (div_le_roundHalfEven _ _)
  rw [Nat.le_div_iff_mul_le (by positivity)]
  omega

private theorem hundredths_le {limit : Nat} (h : b ≤ limit * 1024 ^ i) : hundredths b i ≤ 100 * limit := by
  refine roundHalfEven_le (by positivity) ?_
  rw [Nat.mul_assoc]
  omega

private theorem hundredths_le_iff (b i : Nat) : hundredths b i ≤ 102399 ↔ 200 * b < 204799 * 1024 ^ i := by
  have hpos : (0 : ℚ) < (1024 ^ i : Nat) := by positivity
  rw [hundredths, roundHalfEven_le_iff_of_odd (by positivity) (by decide), div_lt_iff₀ hpos]
  constructor
  · intro h
    have : (200 * b : ℚ) < 204799 * (1024 ^ i : Nat) := by
      push_cast at h ⊢
      linarith
    exact_mod_cast this
  · intro h
    have : (200 * b : ℚ) < 204799 * (1024 ^ i : Nat) := by exact_mod_cast h
    push_cast at this ⊢
    linarith

end Hundredths

/-- The sizes just below a unit, which rounding carries over to 1024 of the unit before. -/
def CarriesOver (b : Nat) : Prop :=
  1048571 ≤ b ∧ b < 1024 ^ 2 ∨ 1073736582 ≤ b ∧ b < 1024 ^ 3

/-- A number is the size in a unit: the size is at least one there and below 1024 unless the unit is the last, and the
number is the size rounded to hundredths, of which six digits are shown. -/
structure ShowsSize (b i : Nat) (unit : String) (v : ℚ) : Prop where
  unit_eq : sizeUnits[i]? = some unit
  one_le_size : 1024 ^ i ≤ b
  size_lt : unit ≠ "GB" → b < 1024 ^ (i + 1)
  exact : hundredths b i < 10 ^ 6 → v = hundredths b i / 100
  near : |v - hundredths b i / 100| ≤ v / 10 ^ 5

section Units

variable {b i : Nat} {unit : String} {v : ℚ}

private theorem lt_of_ne_last (h : sizeUnits[i]? = some unit) (hunit : unit ≠ "GB") : i < 3 := by
  obtain ⟨hlt, heq⟩ := List.getElem?_eq_some_iff.mp h
  refine lt_of_le_of_ne (Nat.le_of_lt_succ hlt) ?_
  rintro rfl
  exact hunit heq.symm

private theorem size_le (hb : b < 2 ^ 53) (h : sizeUnits[i]? = some unit) (hbelow : i < 3 → b < 1024 ^ (i + 1)) :
    b ≤ 2 ^ 23 * 1024 ^ i := by
  obtain ⟨hlt, -⟩ := List.getElem?_eq_some_iff.mp h
  rcases (Nat.le_of_lt_succ hlt : i ≤ 3).lt_or_eq with hi | rfl
  · have := hbelow hi
    rw [pow_succ'] at this
    omega
  · omega

private theorem carriesOver_iff (hi : i < 3) (hlow : 1024 ^ i ≤ b) (hhigh : b < 1024 ^ (i + 1)) :
    CarriesOver b ↔ 204799 * 1024 ^ i ≤ 200 * b := by
  unfold CarriesOver
  interval_cases i <;> omega

/-- In all units but the last the number is below 1024, except where the rounding carries over. -/
theorem ShowsSize.lt_iff (h : ShowsSize b i unit v) (hunit : unit ≠ "GB") :
    (v < 1024 ↔ ¬ CarriesOver b) ∧ (CarriesOver b → v = 1024) := by
  have hhigh := h.size_lt hunit
  have hmax : hundredths b i ≤ 100 * 1024 := hundredths_le (by rw [← pow_succ']; exact hhigh.le)
  have hcarries : CarriesOver b ↔ 102399 < hundredths b i := by
    rw [carriesOver_iff (lt_of_ne_last h.unit_eq hunit) h.one_le_size hhigh, ← not_le, hundredths_le_iff, not_lt]
  rw [h.exact (by omega), hcarries, not_lt, div_lt_iff₀ (by norm_num), div_eq_iff (by norm_num)]
  constructor
  · rw [← Nat.lt_succ_iff]
    norm_num
  · intro hgt
    have heq : hundredths b i = 100 * 1024 := by omega
    rw [heq]
    norm_num

end Units

/-- The text of a size is a number of a unit that is at least one, and below 1024 unless the unit is the last one or
the rounding carries over. -/
theorem fileSize_shows {b : Nat} (hpos : 1 ≤ b) (hb : b < 2 ^ 53) :
    ∃ i number unit v, fileSize b = .ok (number ++ " " ++ unit) ∧ readDecimal? number.toList = some v ∧
      ShowsSize b i unit v ∧ 1 ≤ v ∧ (unit ≠ "GB" → (v < 1024 ↔ ¬ CarriesOver b) ∧ (CarriesOver b → v = 1024)) := by
  have hunits : sizeUnits ≠ [] := List.cons_ne_nil _ _
  obtain ⟨m, e, hfloat, hvalue⟩ := Binary64.exists_ofInt?_eq hb
  obtain ⟨i, unit, m', e', hscale, hunit, hsize, hone, hbelow⟩ :=
    exists_scaleSize hunits (i := 0) hb (by decide) (by rw [hvalue, pow_zero, div_one]) (by rwa [pow_zero])
  rw [Nat.zero_add] at hsize hone hbelow
  have hbelow : i < 3 → b < 1024 ^ (i + 1) := fun h => hbelow (Nat.succ_lt_succ h)
  have hmax := hundredths_le (size_le hb hunit hbelow)
  have hrange : (hundredths b i / 100 : ℚ) < 2 ^ 1023 :=
    (div_le_self (Nat.cast_nonneg _) (by norm_num)).trans_lt (Binary64.natCast_in_range (hmax.trans_lt (by decide)))
  obtain ⟨m'', e'', hround, hnear⟩ := Binary64.exists_roundHundredths_isNearest (d := 1024 ^ i) (by positivity)
    (by push_cast; exact hsize) hrange
  obtain ⟨v, hread, hv, hoff, hexact⟩ := Binary64.exists_readDecimal?_hundredths (le_hundredths hone) hmax hnear
  have hshows : ShowsSize b i unit v := ⟨hunit, hone, fun h => hbelow (lt_of_ne_last hunit h), hexact, hoff⟩
  refine ⟨i, _, unit, v, ?_, hread, hshows, hv, hshows.lt_iff⟩
  rw [fileSize, if_neg (by omega), hfloat]
  dsimp only
  rw [hscale, hround]

/-- One and a half kilobytes, far from where the rounding carries over. -/
theorem fileSize_shows_kilobytes :
    1 ≤ 1536 ∧ 1536 < 2 ^ 53 ∧ ∃ number, fileSize (1536 : Nat) = .ok (number ++ " " ++ "KB") ∧
      readDecimal? number.toList = some (3 / 2) := by
  obtain ⟨i, number, unit, v, htext, hread, hshows, -, -⟩ := @fileSize_shows 1536 (by decide) (by decide)
  have hone := hshows.one_le_size
  have hunit := hshows.unit_eq
  obtain rfl : i = 1 := by
    have hle : i < 2 := (Nat.pow_lt_pow_iff_right (by decide)).mp (hone.trans_lt (by decide : 1536 < 1024 ^ 2))
    have hpos : i ≠ 0 := by
      rintro rfl
      obtain rfl : "Bytes" = unit := Option.some.inj hunit
      exact absurd (hshows.size_lt (by decide)) (by decide)
    omega
  obtain rfl : "KB" = unit := Option.some.inj hunit
  have hhundredths : hundredths 1536 1 = 150 := rfl
  have hv : v = 3 / 2 := by
    rw [hshows.exact (by decide), hhundredths]
    norm_num
  rw [hv] at hread
  exact ⟨by decide, by decide, number, htext, hread⟩

/-- One byte less than a megabyte is rounded up to 1024 kilobytes. -/
theorem fileSize_carries_over :
    1 ≤ 1048575 ∧ 1048575 < 2 ^ 53 ∧ fileSize 1048575 = .ok ("1024" ++ " " ++ "KB") ∧
      readDecimal? "1024".toList = some 1024 ∧ "KB" ≠ "GB" ∧ ¬ (1024 : ℚ) < 1024 := by
  have hfloat : Binary64.ofInt? 1048575 = some (.finite false 9007190664806400 (-33)) := by decide +kernel
  have hscale : scaleSize (.finite false 9007190664806400 (-33)) sizeUnits =
      (.finite false 9007190664806400 (-43), "KB") := by decide +kernel
  have hround : (Binary64.finite false 9007190664806400 (-43)).roundHundredths =
      .finite false 4503599627370496 (-42) := by decide +kernel
  have hshown : Binary64.shownDigits (Binary64.numerator 4503599627370496 (-42))
      (Binary64.denominator (-42)) = (102400, 3) := by
    decide +kernel
  have hplaces : (positional 2 102400).toList = ['1', '0', '2', '4'] ++ '.' :: ['0', '0'] := by decide +kernel
  have htext : Binary64.shownText 102400 3 = "1024" := String.ext (toList_stripPlaces hplaces (by decide))
  refine ⟨by decide, by decide, ?_, by decide +kernel, by decide, lt_irrefl _⟩
  rw [fileSize, if_neg (by decide), hfloat]
  dsimp only
  rw [hscale, hround, Binary64.general_eq (by decide), hshown, htext]

end Report
end LineCensus
