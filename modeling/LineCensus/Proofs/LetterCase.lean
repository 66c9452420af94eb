import LineCensus.Proofs.LowerCase

/-! Texts that differ in the case of ASCII letters have the same lower case, also where the final form of the sigma
depends on the letters around it. -/
namespace LineCensus.Text

variable {c mark : Char} {text other : List Char}

def SameLetters (text other : List Char) : Prop :=
  text.map Char.toLower = other.map Char.toLower

instance (text other : List Char) : Decidable (SameLetters text other) :=
  inferInstanceAs (Decidable (text.map Char.toLower = other.map Char.toLower))

private theorem toLower_cases (c : Char) :
    'A' ≤ c ∧ c ≤ 'Z' ∧ c.toLower = Char.ofNat (c.toNat + 32) ∨ ¬('A' ≤ c ∧ c ≤ 'Z') ∧ c.toLower = c := by
  by_cases hcapital : 'A' ≤ c ∧ c ≤ 'Z'
  · refine .inl ⟨hcapital.1, hcapital.2, Char.toNat_inj.mp ?_⟩
    have hZ : c.toNat ≤ 90 := hcapital.2
    have hval : c.toLower.val = c.val + 32 := congrArg Char.val (dif_pos hcapital)
    have hadd : c.toLower.toNat = (c.toNat + 32) % 2 ^ 32 := (congrArg UInt32.toNat hval).trans (UInt32.toNat_add ..)
    rw [hadd, toNat_ofNat (.inl (by omega))]
    omega
  · exact .inr ⟨hcapital, dif_neg hcapital⟩

/-- A capital and its small letter are of the same kind for the sigma rule. -/
theorem contains_capital : ∀ n < 26,
    caseIgnorableRanges.contains (65 + n + 32) = caseIgnorableRanges.contains (65 + n) ∧
      casedRanges.contains (65 + n + 32) = casedRanges.contains (65 + n) := by
  decide +kernel

private theorem contains_toLower (c : Char) :
    caseIgnorableRanges.contains c.toLower.toNat = caseIgnorableRanges.contains c.toNat ∧
      casedRanges.contains c.toLower.toNat = casedRanges.contains c.toNat := by
  rcases toLower_cases c with ⟨hA, hZ, hlower⟩ | ⟨-, hlower⟩
  · have hA : 65 ≤ c.toNat := hA
    have hZ : c.toNat ≤ 90 := hZ
    have h := contains_capital (c.toNat - 65) (by omega)
    rw [Nat.add_sub_cancel' hA] at h
    rwa [hlower, toNat_ofNat (.inl (by omega))]
  · rw [hlower]
    exact ⟨rfl, rfl⟩

private theorem casedNext_map_toLower (neighbours : List Char) :
    casedNext (neighbours.map Char.toLower) = casedNext neighbours := by
  have hignored : (fun c => caseIgnorableRanges.contains c.toNat) ∘ Char.toLower =
      fun c => caseIgnorableRanges.contains c.toNat := funext fun c => (contains_toLower c).1
  rw [casedNext, casedNext, List.dropWhile_map, hignored]
  cases neighbours.dropWhile fun c => caseIgnorableRanges.contains c.toNat with
  | nil => rfl
  | cons c rest => exact (contains_toLower c).2

private theorem lowerChar_toLower (left : List Char) (c : Char) (right : List Char) :
    lowerChar (left.map Char.toLower) c.toLower (right.map Char.toLower) = lowerChar left c right := by
  rcases toLower_cases c with ⟨hA, hZ, hlower⟩ | ⟨-, hlower⟩
  · have hcapital : (decide ('A' ≤ c) && decide (c ≤ 'Z')) = true := by simp [hA, hZ]
    have hsigma : c ≠ 'Σ' := by rintro rfl; revert hZ; decide
    have hdotted : c ≠ 'İ' := by rintro rfl; revert hZ; decide
    rw [hlower, (lowered_of_capital hA hZ).lowerChar_eq, lowerChar, if_neg (by simpa using hsigma),
      if_neg (by simpa using hdotted), if_pos hcapital]
  · simp only [hlower, lowerChar, casedNext_map_toLower]

private theorem lowerFrom_map_toLower (left text : List Char) :
    lowerFrom (left.map Char.toLower) (text.map Char.toLower) = lowerFrom left text := by
  induction text generalizing left with
  | nil => rfl
  | cons c rest ih =>
    have hrest := ih (c :: left)
    rw [List.map_cons] at hrest
    rw [List.map_cons, lowerFrom, lowerFrom, lowerChar_toLower, hrest]

theorem SameLetters.lower_eq (h : SameLetters text other) : lower text = lower other := by
  have htext : lower (text.map Char.toLower) = lower text := lowerFrom_map_toLower [] text
  have hother : lower (other.map Char.toLower) = lower other := lowerFrom_map_toLower [] other
  rw [← htext, ← hother, h]

/-- A mark in front of the small letters is what it is in every case. -/
theorem toLower_eq_iff (hmark : mark.toNat ≤ 96) (hself : ¬('A' ≤ mark ∧ mark ≤ 'Z')) :
    c.toLower = mark ↔ c = mark := by
  rcases toLower_cases c with ⟨hA, hZ, hlower⟩ | ⟨-, hlower⟩
  · have hA' : 65 ≤ c.toNat := hA
    have hZ' : c.toNat ≤ 90 := hZ
    have htoNat : c.toLower.toNat = c.toNat + 32 := by
      rw [hlower]
      exact toNat_ofNat (.inl (by omega))
    constructor
    · rintro rfl
      omega
    · rintro rfl
      exact absurd ⟨hA, hZ⟩ hself
  · rw [hlower]

end LineCensus.Text
