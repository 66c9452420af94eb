import LineCensus.Numeric.Decimal
import LineCensus.Proofs.Cutting
import LineCensus.Proofs.Nearest
import Mathlib.Data.List.DropRight
import Mathlib.Tactic

/-! Reading a decimal text as a rational number. Written digits read back, also behind zeros and in front of zeros that
are taken away, and so the text with six digits reads as the number rounded to six digits. -/
namespace LineCensus.Numeric

open Text (splitAt splitAt_append_cons splitAt_of_not_mem)

def readDigits? (text : List Char) : Option Nat :=
  if text ≠ [] ∧ text.all Char.isDigit then some (Nat.ofDigitChars 10 text 0) else none

def readPlaces? (text : List Char) : Option ℚ :=
  match splitAt '.' text with
  | [whole] => do
    let n ← readDigits? whole
    return n
  | [whole, fraction] => do
    let n ← readDigits? whole
    let part ← readDigits? fraction
    return n + part / 10 ^ fraction.length
  | _ => none

def readSigned? : List Char → Option ℤ
  | '+' :: digits => do
    let n ← readDigits? digits
    return n
  | '-' :: digits => do
    let n ← readDigits? digits
    return -n
  | _ => none

/-- The value of a decimal text, which may end in a power of ten. -/
def readDecimal? (text : List Char) : Option ℚ :=
  match splitAt 'e' text with
  | [places] => readPlaces? places
  | [places, power] => do
    let x ← readPlaces? places
    let e ← readSigned? power
    return x * 10 ^ e
  | _ => none

section Digits

variable {text : List Char} {n width : Nat}

private theorem isDigit_toDigits (n : Nat) : ∀ c ∈ Nat.toDigits 10 n, c.isDigit = true :=
  fun _ hc => Nat.isDigit_of_mem_toDigits (by decide) le_rfl hc

private theorem readDigits?_of_isDigit (hne : text ≠ []) (h : ∀ c ∈ text, c.isDigit = true) :
    readDigits? text = some (Nat.ofDigitChars 10 text 0) :=
  if_pos ⟨hne, List.all_eq_true.mpr h⟩

private theorem toList_toString (n : Nat) : (toString n).toList = Nat.toDigits 10 n := by
  rw [Nat.toString_eq_ofList_toDigits, String.toList_ofList]

private theorem length_toString (n : Nat) : (toString n).length = (Nat.toDigits 10 n).length := by
  rw [← String.length_toList, toList_toString]

private theorem toList_padDigits (width n : Nat) :
    (padDigits width n).toList =
      List.replicate (width - (Nat.toDigits 10 n).length) '0' ++ Nat.toDigits 10 n := by
  rw [padDigits, String.toList_append, String.toList_ofList, length_toString, toList_toString]

private theorem isDigit_padDigits (width n : Nat) : ∀ c ∈ (padDigits width n).toList, c.isDigit = true := by
  intro c hc
  rw [toList_padDigits, List.mem_append, List.mem_replicate] at hc
  rcases hc with ⟨-, rfl⟩ | hc
  · rfl
  · exact isDigit_toDigits n c hc

private theorem ofDigitChars_padDigits (width n : Nat) : Nat.ofDigitChars 10 (padDigits width n).toList 0 = n := by
  rw [toList_padDigits, Nat.ofDigitChars_append, Nat.ofDigitChars_replicate_zero, Nat.mul_zero,
    Nat.ofDigitChars_ten_toDigits]

private theorem padDigits_ne_nil (width n : Nat) : (padDigits width n).toList ≠ [] := by
  rw [toList_padDigits]
  exact List.append_ne_nil_of_right_ne_nil _ Nat.toDigits_ne_nil

private theorem readDigits?_padDigits (width n : Nat) : readDigits? (padDigits width n).toList = some n := by
  rw [readDigits?_of_isDigit (padDigits_ne_nil width n) (isDigit_padDigits width n), ofDigitChars_padDigits]

private theorem length_padDigits (hwidth : 0 < width) (h : n < 10 ^ width) :
    (padDigits width n).toList.length = width := by
  have hle : (Nat.toDigits 10 n).length ≤ width := (Nat.length_toDigits_le_iff (by decide) hwidth).mpr h
  rw [toList_padDigits, List.length_append, List.length_replicate]
  omega

end Digits

section Places

variable {whole fraction : List Char}

private theorem not_mem_of_isDigit {c : Char} {text : List Char} (hc : c.isDigit = false)
    (h : ∀ c ∈ text, c.isDigit = true) :
    c ∉ text :=
  fun hmem => by simp [h c hmem] at hc

private theorem readPlaces?_digits (hne : whole ≠ []) (h : ∀ c ∈ whole, c.isDigit = true) :
    readPlaces? whole = some (Nat.ofDigitChars 10 whole 0 : ℚ) := by
  have hsplit : splitAt '.' whole = [whole] := splitAt_of_not_mem (not_mem_of_isDigit rfl h)
  simp [readPlaces?, hsplit, readDigits?_of_isDigit hne h]

private theorem readPlaces?_point (hw : whole ≠ []) (hwhole : ∀ c ∈ whole, c.isDigit = true) (hf : fraction ≠ [])
    (hfraction : ∀ c ∈ fraction, c.isDigit = true) :
    readPlaces? (whole ++ '.' :: fraction) =
      some (Nat.ofDigitChars 10 whole 0 + Nat.ofDigitChars 10 fraction 0 / 10 ^ fraction.length : ℚ) := by
  have hsplit : splitAt '.' (whole ++ '.' :: fraction) = [whole, fraction] := by
    rw [splitAt_append_cons, splitAt_of_not_mem (not_mem_of_isDigit rfl hwhole),
      splitAt_of_not_mem (not_mem_of_isDigit rfl hfraction), List.singleton_append]
  simp [readPlaces?, hsplit, readDigits?_of_isDigit hw hwhole, readDigits?_of_isDigit hf hfraction]

def stripPlaces (text : String) : String :=
  if text.contains '.' then
    let short := dropEndZeros text
    if short.endsWith "." then (short.dropEnd 1).copy else short
  else text

def fractionDigits (fraction : List Char) : List Char :=
  fraction.rdropWhile (· == '0')

private theorem exists_fractionDigits_append (fraction : List Char) :
    ∃ count, fractionDigits fraction ++ List.replicate count '0' = fraction := by
  refine ⟨(fraction.rtakeWhile (· == '0')).length, ?_⟩
  rw [← List.eq_replicate_of_mem fun c hc => by simpa using List.mem_rtakeWhile_imp hc]
  exact List.rdropWhile_append_rtakeWhile

private theorem isDigit_fractionDigits (h : ∀ c ∈ fraction, c.isDigit = true) :
    ∀ c ∈ fractionDigits fraction, c.isDigit = true :=
  fun c hc => h c ((List.rdropWhile_prefix _ _).subset hc)

/-- Zeros at the end of a fraction do not count. -/
theorem fraction_eq (fraction : List Char) :
    (Nat.ofDigitChars 10 (fractionDigits fraction) 0 / 10 ^ (fractionDigits fraction).length : ℚ) =
      Nat.ofDigitChars 10 fraction 0 / 10 ^ fraction.length := by
  obtain ⟨count, hcount⟩ := exists_fractionDigits_append fraction
  conv_rhs => rw [← hcount]
  rw [Nat.ofDigitChars_append, Nat.ofDigitChars_replicate_zero, List.length_append, List.length_replicate]
  push_cast
  rw [pow_add]
  field_simp

private theorem toList_dropEndZeros {text : String} (h : text.toList = whole ++ '.' :: fraction) :
    (dropEndZeros text).toList = whole ++ '.' :: fractionDigits fraction := by
  have hreverse : text.toList.reverse = fraction.reverse ++ '.' :: whole.reverse := by
    rw [h, List.reverse_append, List.reverse_cons, List.append_assoc, List.singleton_append]
  have hpoint : ('.' :: whole.reverse).dropWhile (· == '0') = '.' :: whole.reverse := rfl
  rw [dropEndZeros, String.toList_ofList, hreverse, List.dropWhile_append, hpoint, fractionDigits, List.rdropWhile]
  split
  · rename_i hzeros
    rw [List.isEmpty_iff.mp hzeros, List.reverse_cons, List.reverse_reverse, List.reverse_nil]
  · rw [List.reverse_append, List.reverse_cons, List.reverse_reverse, List.append_assoc, List.singleton_append]

private theorem endsWith_point_iff {text : String} (h : text.toList = whole ++ '.' :: fraction)
    (hfraction : ∀ c ∈ fraction, c.isDigit = true) : text.endsWith "." = true ↔ fraction = [] := by
  have hpoint : ".".toList = ['.'] := rfl
  rw [String.endsWith_eq_endsWith_toSlice, String.Slice.endsWith_string_iff, String.copy_toSlice, h, hpoint]
  constructor
  · intro hends
    by_contra hne
    have hlast := hends.getLast (List.cons_ne_nil _ _)
    rw [List.getLast_singleton, List.getLast_append_of_ne_nil _ (List.cons_ne_nil _ _), List.getLast_cons hne] at hlast
    have := hfraction _ (List.getLast_mem hne)
    rw [← hlast] at this
    exact absurd this (by decide)
  · rintro rfl
    exact List.suffix_append _ _

theorem toList_stripPlaces {text : String} (h : text.toList = whole ++ '.' :: fraction)
    (hfraction : ∀ c ∈ fraction, c.isDigit = true) :
    (stripPlaces text).toList =
      if fractionDigits fraction = [] then whole else whole ++ '.' :: fractionDigits fraction := by
  have hshort := toList_dropEndZeros h
  have hends := endsWith_point_iff hshort (isDigit_fractionDigits hfraction)
  rw [stripPlaces, if_pos (by simp [String.contains_char_eq, h])]
  by_cases hnil : fractionDigits fraction = []
  · rw [if_pos hnil]
    dsimp only
    rw [if_pos (hends.mpr hnil), String.toList_copy_dropEnd, hshort, hnil]
    simp
  · rw [if_neg hnil]
    dsimp only
    rw [if_neg (mt hends.mp hnil), hshort]

/-- Digits behind a point read as before when the zeros at their end are taken away. -/
theorem readPlaces?_stripPlaces {text : String} (h : text.toList = whole ++ '.' :: fraction) (hw : whole ≠ [])
    (hwhole : ∀ c ∈ whole, c.isDigit = true) (hfraction : ∀ c ∈ fraction, c.isDigit = true) :
    readPlaces? (stripPlaces text).toList =
      some (Nat.ofDigitChars 10 whole 0 + Nat.ofDigitChars 10 fraction 0 / 10 ^ fraction.length : ℚ) := by
  have heq := fraction_eq fraction
  rw [toList_stripPlaces h hfraction]
  split
  · rename_i hnil
    rw [hnil] at heq
    rw [readPlaces?_digits hw hwhole, ← heq]
    simp
  · rename_i hne
    rw [readPlaces?_point hw hwhole hne (isDigit_fractionDigits hfraction), heq]

private theorem toList_positional {places : Nat} (hp : 0 < places) (n : Nat) :
    (positional places n).toList =
      Nat.toDigits 10 (n / 10 ^ places) ++ '.' :: (padDigits places (n % 10 ^ places)).toList := by
  have hpoint : ".".toList = ['.'] := rfl
  rw [positional, if_neg (by simp [hp.ne']), String.toList_append, String.toList_append, toList_toString, hpoint,
    List.append_assoc, List.singleton_append]
  rfl

/-- Positional notation reads as the number that it writes. -/
theorem readPlaces?_positional (places n : Nat) :
    readPlaces? (stripPlaces (positional places n)).toList = some (n / 10 ^ places : ℚ) := by
  rcases Nat.eq_zero_or_pos places with rfl | hp
  · have htext : (positional 0 n).toList = Nat.toDigits 10 n := toList_toString n
    have hpoint : (positional 0 n).contains '.' = false := by
      rw [String.contains_char_eq, htext]
      exact decide_eq_false (not_mem_of_isDigit rfl (isDigit_toDigits n))
    rw [stripPlaces, hpoint, if_neg Bool.false_ne_true, htext,
      readPlaces?_digits Nat.toDigits_ne_nil (isDigit_toDigits n), Nat.ofDigitChars_ten_toDigits, pow_zero, div_one]
  · have hsum : (n : ℚ) = (n / 10 ^ places : Nat) * 10 ^ places + (n % 10 ^ places : Nat) := by
      exact_mod_cast (Nat.div_add_mod' n (10 ^ places)).symm
    rw [readPlaces?_stripPlaces (toList_positional hp n) Nat.toDigits_ne_nil (isDigit_toDigits _)
      (isDigit_padDigits _ _), Nat.ofDigitChars_ten_toDigits, ofDigitChars_padDigits,
      length_padDigits hp (Nat.mod_lt n (by positivity)), hsum]
    field_simp

private theorem mem_of_mem_stripPlaces {c : Char} {text : String} (h : c ∈ (stripPlaces text).toList) :
    c ∈ text.toList := by
  have hshort {c : Char} (hc : c ∈ (dropEndZeros text).toList) : c ∈ text.toList := by
    rw [dropEndZeros, String.toList_ofList] at hc
    exact (List.rdropWhile_prefix _ _).subset hc
  unfold stripPlaces at h
  dsimp only at h
  split at h
  · split at h
    · rw [String.toList_copy_dropEnd] at h
      exact hshort (List.mem_of_mem_take h)
    · exact hshort h
  · exact h

/-- No power of ten stands in positional notation. -/
theorem not_mem_positional (places n : Nat) : 'e' ∉ (stripPlaces (positional places n)).toList := by
  intro h
  have hmem := mem_of_mem_stripPlaces h
  rcases Nat.eq_zero_or_pos places with rfl | hp
  · exact not_mem_of_isDigit rfl (isDigit_toDigits n) ((toList_toString n).subst hmem)
  · rw [toList_positional hp, List.mem_append, List.mem_cons] at hmem
    rcases hmem with hmem | heq | hmem
    · exact not_mem_of_isDigit rfl (isDigit_toDigits _) hmem
    · exact absurd heq (by decide)
    · exact not_mem_of_isDigit rfl (isDigit_padDigits _ _) hmem

private theorem readSigned?_exponentText (e : ℤ) : readSigned? (exponentText e).toList = some e := by
  have hminus : "-".toList = ['-'] := rfl
  have hplus : "+".toList = ['+'] := rfl
  rw [exponentText, String.toList_append]
  split
  · rename_i hneg
    have habs : -(e.natAbs : ℤ) = e := by omega
    rw [hminus, List.singleton_append, readSigned?, readDigits?_padDigits]
    exact congrArg some habs
  · rename_i hneg
    have habs : (e.natAbs : ℤ) = e := by omega
    rw [hplus, List.singleton_append, readSigned?, readDigits?_padDigits]
    exact congrArg some habs

end Places

namespace Binary64

def shownDigits (num den : Nat) : Nat × ℤ :=
  let top := decimalExponent num den
  let step : ℤ := top - (generalDigits - 1)
  let rounded := roundHalfEven (num * pow10 (-step).toNat) (den * pow10 step.toNat)
  if rounded == pow10 generalDigits then (pow10 (generalDigits - 1), top + 1) else (rounded, top)

def shownText (digits : Nat) (top : ℤ) : String :=
  if -4 ≤ top && top < generalDigits then stripPlaces (positional (generalDigits - 1 - top).toNat digits)
  else stripPlaces (positional (generalDigits - 1) digits) ++ "e" ++ exponentText top

theorem general_eq {m : Nat} (hm : m ≠ 0) (e : ℤ) :
    (finite false m e).general =
      shownText (shownDigits (numerator m e) (denominator e)).1 (shownDigits (numerator m e) (denominator e)).2 := by
  have hsign : signText false = "" := rfl
  rw [general, if_neg (by simpa using hm), hsign]
  simp only [String.empty_append]
  rfl

private theorem readDecimal?_shownText (digits : Nat) (top : ℤ) :
    readDecimal? (shownText digits top).toList = some (digits * 10 ^ (top - 5) : ℚ) := by
  rw [shownText]
  split
  · rename_i hrange
    have htop : top < 6 := of_decide_eq_true (Bool.and_eq_true_iff.mp hrange).2
    rw [readDecimal?, splitAt_of_not_mem (not_mem_positional _ _)]
    dsimp only
    rw [readPlaces?_positional, ← zpow_natCast, generalDigits, div_eq_mul_inv, ← zpow_neg]
    congr 3
    push_cast
    omega
  · have hmark : "e".toList = ['e'] := rfl
    have hpower : 'e' ∉ (exponentText top).toList := by
      rw [exponentText, String.toList_append, List.mem_append, not_or]
      exact ⟨by split <;> decide, not_mem_of_isDigit rfl (isDigit_padDigits _ _)⟩
    rw [readDecimal?, String.toList_append, String.toList_append, hmark, List.append_assoc, List.singleton_append,
      splitAt_append_cons, splitAt_of_not_mem (not_mem_positional _ _), splitAt_of_not_mem hpower,
      List.singleton_append]
    dsimp only
    rw [readPlaces?_positional, readSigned?_exponentText]
    have hpow : (digits / 10 ^ 5 * 10 ^ top : ℚ) = digits * 10 ^ (top - 5) := by
      rw [zpow_sub₀ (by norm_num)]
      norm_num
      ring
    exact congrArg some hpow

def lastExponent (num den : Nat) : ℤ :=
  decimalExponent num den - 5

private theorem shownDigits_value (num den : Nat) :
    ((shownDigits num den).1 * 10 ^ ((shownDigits num den).2 - 5) : ℚ) =
      onGrid 10 num den (lastExponent num den) * 10 ^ lastExponent num den := by
  have heq : shownDigits num den =
      if onGrid 10 num den (lastExponent num den) == 10 ^ 6 then (10 ^ 5, decimalExponent num den + 1)
      else (onGrid 10 num den (lastExponent num den), decimalExponent num den) := rfl
  rw [heq]
  split
  · rename_i hcarry
    rw [beq_iff_eq.mp hcarry, lastExponent, add_sub_right_comm, zpow_add_one₀ (by norm_num)]
    push_cast
    ring
  · simp only [lastExponent]

/-- The text of a number shows it rounded to six digits. -/
theorem readDecimal?_general {m : Nat} (hm : m ≠ 0) (e : ℤ) :
    readDecimal? (finite false m e).general.toList =
      some (onGrid 10 (numerator m e) (denominator e) (lastExponent (numerator m e) (denominator e)) *
        10 ^ lastExponent (numerator m e) (denominator e) : ℚ) := by
  rw [general_eq hm, readDecimal?_shownText, shownDigits_value]

end Binary64

section Exponent

variable {n num den : Nat}

private theorem length_bounds (hn : 0 < n) :
    10 ^ ((toString n).length - 1) ≤ n ∧ n < 10 ^ (toString n).length ∧ 0 < (toString n).length := by
  have hlength : 0 < (Nat.toDigits 10 n).length := List.length_pos_of_ne_nil Nat.toDigits_ne_nil
  rw [length_toString]
  refine ⟨?_, (Nat.length_toDigits_le_iff (by decide) hlength).mp le_rfl, hlength⟩
  rcases Nat.eq_zero_or_pos ((Nat.toDigits 10 n).length - 1) with hzero | hpos
  · rw [hzero, pow_zero]
    exact hn
  · rw [← not_lt, ← Nat.length_toDigits_le_iff (by decide) hpos]
    omega

private theorem lt_ten_zpow_iff (hd : 0 < den) (e : ℤ) :
    num * 10 ^ (-e).toNat < den * 10 ^ e.toNat ↔ (num / den : ℚ) < 10 ^ e := by
  have h := @lt_grid_iff 10 num den (by decide) hd e 0
  rw [pow_zero, mul_one, Nat.cast_zero, add_zero] at h
  exact h

/-- The exponent of the leading digit of a quotient. -/
theorem decimalExponent_bounds (hn : 0 < num) (hd : 0 < den) :
    (10 : ℚ) ^ decimalExponent num den ≤ num / den ∧ (num / den : ℚ) < 10 ^ (decimalExponent num den + 1) := by
  obtain ⟨hnumLow, hnumHigh, hnumPos⟩ := length_bounds hn
  obtain ⟨hdenLow, hdenHigh, hdenPos⟩ := length_bounds hd
  have hden : (0 : ℚ) < den := Nat.cast_pos.mpr hd
  set guess : ℤ := (toString num).length - (toString den).length with hguess
  have hlow : (10 : ℚ) ^ (guess - 1) ≤ num / den := by
    rw [le_div_iff₀ hden]
    calc (10 : ℚ) ^ (guess - 1) * den ≤ 10 ^ (guess - 1) * 10 ^ ((toString den).length : ℤ) := by
          gcongr
          exact_mod_cast hdenHigh.le
      _ = 10 ^ (((toString num).length - 1 : Nat) : ℤ) := by
        rw [← zpow_add₀ (by norm_num)]
        congr 1
        omega
      _ ≤ num := by exact_mod_cast hnumLow
  have hhigh : (num / den : ℚ) < 10 ^ (guess + 1) := by
    rw [div_lt_iff₀ hden]
    calc (num : ℚ) < 10 ^ ((toString num).length : ℤ) := by exact_mod_cast hnumHigh
      _ = 10 ^ (guess + 1) * 10 ^ (((toString den).length - 1 : Nat) : ℤ) := by
        rw [← zpow_add₀ (by norm_num)]
        congr 1
        omega
      _ ≤ 10 ^ (guess + 1) * den := by
        gcongr
        exact_mod_cast hdenLow
  have hexact : decimalExponent num den =
      if num * 10 ^ (-guess).toNat < den * 10 ^ guess.toNat then guess - 1 else guess := rfl
  rw [hexact]
  split
  · rename_i hbelow
    rw [sub_add_cancel]
    exact ⟨hlow, (lt_ten_zpow_iff hd guess).mp hbelow⟩
  · rename_i hbelow
    exact ⟨not_lt.mp (mt (lt_ten_zpow_iff hd guess).mpr hbelow), hhigh⟩

end Exponent

/-- The text of a number shows a multiple of a power of ten that has six digits and is off by half a unit of the last
at most. What is nearer to the number than that half is the multiple itself. -/
theorem Binary64.exists_readDecimal?_general {m : Nat} (hm : 0 < m) (e : ℤ) :
    ∃ (digits : Nat) (step : ℤ),
      readDecimal? (finite false m e).general.toList = some (digits * 10 ^ step : ℚ) ∧
        (10 : ℚ) ^ (step + 5) ≤ (finite false m e).value ∧ (finite false m e).value < 10 ^ (step + 6) ∧
        10 ^ 5 ≤ digits ∧ |(digits * 10 ^ step : ℚ) - (finite false m e).value| ≤ 1 / 2 * 10 ^ step ∧
        ∀ k : Nat, |(k * 10 ^ step : ℚ) - (finite false m e).value| < 1 / 2 * 10 ^ step → digits = k := by
  have hd := denominator_pos e
  have hnum : 0 < numerator m e := Nat.mul_pos hm (Nat.two_pow_pos _)
  obtain ⟨hlow, hhigh⟩ := decimalExponent_bounds hnum hd
  rw [← numerator_div_denominator]
  refine ⟨_, _, readDecimal?_general hm.ne' e, ?_, ?_, ?_, abs_onGrid_sub_le (by decide) hd _,
    fun k hk => onGrid_eq_of_near (by decide) hd hk⟩
  · rw [lastExponent, sub_add_cancel]
    exact hlow
  · rw [lastExponent, show decimalExponent (numerator m e) (denominator e) - 5 + 6 =
      decimalExponent (numerator m e) (denominator e) + 1 by ring]
    exact hhigh
  · refine le_onGrid (by decide) hd (le_trans (le_of_eq ?_) hlow)
    rw [lastExponent, zpow_sub₀ (by norm_num)]
    norm_num
    ring

end LineCensus.Numeric
