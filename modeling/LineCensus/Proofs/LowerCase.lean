import LineCensus.Text.LowerCase
import Mathlib.Data.List.Basic

/-! Lower case once more: what has been put in lower case stays as it is, between any neighbours. -/
namespace LineCensus.Text

namespace CaseRun

def image (run : CaseRun) (n : Nat) : Nat :=
  (n + run.offset).toNat

def Misses (run : CaseRun) (n : Nat) : Prop :=
  n < run.first ∨ run.last < n ∨ (n - run.first) % run.stride ≠ 0

def apart (run other : CaseRun) : Bool :=
  run.image run.last < other.first || other.last < run.image run.first ||
    (run.stride % 2 == 0 || run.first == run.last) && other.stride == 2 &&
      (run.image run.first + other.first) % 2 == 1

/-- The lower case of a run is made of characters, and of none that has a rule of its own: no ASCII
capital, no dotted capital I and no capital sigma. -/
structure Lands (run : CaseRun) : Prop where
  above_ascii : 90 < run.image run.first
  no_dotted : run.image run.last < 304 ∨ 304 < run.image run.first
  no_sigma : run.image run.last < 931 ∨ 931 < run.image run.first
  valid : run.image run.last < 0xD800 ∨ 0xDFFF < run.image run.first ∧ run.image run.last < 0x110000

instance (run : CaseRun) : Decidable run.Lands :=
  decidable_of_iff (90 < run.image run.first ∧ (run.image run.last < 304 ∨ 304 < run.image run.first) ∧
      (run.image run.last < 931 ∨ 931 < run.image run.first) ∧
      (run.image run.last < 0xD800 ∨ 0xDFFF < run.image run.first ∧ run.image run.last < 0x110000))
    ⟨fun ⟨hascii, hdotted, hsigma, hvalid⟩ => ⟨hascii, hdotted, hsigma, hvalid⟩,
      fun ⟨hascii, hdotted, hsigma, hvalid⟩ => ⟨hascii, hdotted, hsigma, hvalid⟩⟩

variable {run other : CaseRun} {i : Nat}

private theorem image_add (h : run.Lands) (i : Nat) : run.image (run.first + i) = run.image run.first + i := by
  have hfirst := h.above_ascii
  simp only [image] at hfirst ⊢
  omega

private theorem image_le (hi : i ≤ run.last - run.first) (hrun : run.first ≤ run.last) :
    run.image (run.first + i) ≤ run.image run.last := by
  simp only [image]
  omega

private theorem misses_image (h : run.Lands) (hapart : run.apart other = true) (hrun : run.first ≤ run.last)
    (hi : i ≤ run.last - run.first) (hstride : i % run.stride = 0) :
    other.Misses (run.image (run.first + i)) := by
  have hle := image_le hi hrun
  rw [image_add h] at hle ⊢
  simp only [apart, Bool.or_eq_true, Bool.and_eq_true, decide_eq_true_eq, beq_iff_eq] at hapart
  rcases hapart with (hbefore | hbehind) | ⟨⟨heven, htwo⟩, hodd⟩
  · exact .inl (by omega)
  · exact .inr (.inl (by omega))
  · have hparity : i % 2 = 0 := by
      rcases heven with heven | hone
      · have hdvd : run.stride ∣ i := Nat.dvd_of_mod_eq_zero hstride
        exact Nat.mod_eq_zero_of_dvd (Nat.dvd_trans (Nat.dvd_of_mod_eq_zero heven) hdvd)
      · omega
    by_cases hbefore : run.image run.first + i < other.first
    · exact .inl hbefore
    · exact .inr (.inr (by rw [htwo]; omega))

end CaseRun

private theorem apart_caseRuns : (caseRuns.all fun run => caseRuns.all run.apart) = true := by
  decide +kernel

private theorem lands_caseRuns : ∀ run ∈ caseRuns, run.Lands ∧ run.first ≤ run.last := by
  decide +kernel

private theorem lowerCodePoint_of_misses {n : Nat} {runs : List CaseRun} (h : ∀ run ∈ runs, run.Misses n) :
    lowerCodePoint n runs = n := by
  induction runs with
  | nil => rfl
  | cons run rest ih =>
    obtain ⟨hrun, hrest⟩ := List.forall_mem_cons.mp h
    rw [lowerCodePoint]
    split
    · rfl
    · rename_i hfirst
      rw [if_neg, ih hrest]
      simp only [Bool.and_eq_true, decide_eq_true_eq, beq_iff_eq]
      rintro ⟨hlast, hmod⟩
      rcases hrun with hbefore | hbehind | hbetween
      · exact hfirst hbefore
      · omega
      · exact hbetween hmod

private theorem lowerCodePoint_cases (n : Nat) (runs : List CaseRun) :
    lowerCodePoint n runs = n ∨ ∃ run ∈ runs, ∃ i ≤ run.last - run.first, i % run.stride = 0 ∧
      lowerCodePoint n runs = run.image (run.first + i) := by
  induction runs with
  | nil => exact .inl rfl
  | cons run rest ih =>
    rw [lowerCodePoint]
    split
    · exact .inl rfl
    · rename_i hfirst
      split
      · rename_i hin
        simp only [Bool.and_eq_true, decide_eq_true_eq, beq_iff_eq] at hin
        refine .inr ⟨run, List.mem_cons_self .., n - run.first, by omega, hin.2, ?_⟩
        rw [CaseRun.image, Nat.add_sub_cancel' (Nat.le_of_not_lt hfirst)]
      · rcases ih with heq | ⟨other, hmem, hother⟩
        · exact .inl heq
        · exact .inr ⟨other, List.mem_cons_of_mem _ hmem, hother⟩

structure Lowered (c : Char) : Prop where
  ne_sigma : c ≠ 'Σ'
  ne_dotted : c ≠ 'İ'
  not_capital : ¬('A' ≤ c ∧ c ≤ 'Z')
  fixed : 128 ≤ c.toNat → lowerCodePoint c.toNat caseRuns = c.toNat

variable {c d : Char} {left right text : List Char}

theorem Lowered.lowerChar_eq (h : Lowered c) (left right : List Char) : lowerChar left c right = [c] := by
  have hcapital : ¬(decide ('A' ≤ c) && decide (c ≤ 'Z')) = true := by simpa using h.not_capital
  rw [lowerChar, if_neg (by simpa using h.ne_sigma), if_neg (by simpa using h.ne_dotted), if_neg hcapital]
  split
  · rfl
  · rename_i hlarge
    rw [h.fixed (Nat.le_of_not_lt hlarge), Char.ofNat_toNat]

theorem lowerFrom_of_lowered (left : List Char) (h : ∀ c ∈ text, Lowered c) : lowerFrom left text = text := by
  induction text generalizing left with
  | nil => rfl
  | cons c rest ih =>
    obtain ⟨hc, hrest⟩ := List.forall_mem_cons.mp h
    rw [lowerFrom, hc.lowerChar_eq, ih _ hrest, List.singleton_append]

theorem toNat_ofNat {n : Nat} (h : n.isValidChar) : (Char.ofNat n).toNat = n := by
  rw [Char.ofNat, dif_pos h]
  rfl

theorem lowered_of_ascii (hsmall : c.toNat < 128) (hcapital : ¬('A' ≤ c ∧ c ≤ 'Z')) : Lowered c where
  ne_sigma := by rintro rfl; revert hsmall; decide
  ne_dotted := by rintro rfl; revert hsmall; decide
  not_capital := hcapital
  fixed h := absurd hsmall (Nat.not_lt.mpr h)

theorem lowered_of_capital (hA : 'A' ≤ c) (hZ : c ≤ 'Z') : Lowered (Char.ofNat (c.toNat + 32)) := by
  have hA : 65 ≤ c.toNat := hA
  have hZ : c.toNat ≤ 90 := hZ
  have htoNat : (Char.ofNat (c.toNat + 32)).toNat = c.toNat + 32 := toNat_ofNat (.inl (by omega))
  refine lowered_of_ascii (by omega) ?_
  rintro ⟨-, hle⟩
  have hle : (Char.ofNat (c.toNat + 32)).toNat ≤ 90 := hle
  omega

private theorem isValidChar_image {run : CaseRun} {i : Nat} (hrun : run ∈ caseRuns) (hi : i ≤ run.last - run.first) :
    (run.image (run.first + i)).isValidChar := by
  obtain ⟨hlands, hfirst⟩ := lands_caseRuns run hrun
  have hle := CaseRun.image_le hi hfirst
  have hadd := CaseRun.image_add hlands i
  rcases hlands.valid with hlow | ⟨hhigh, htop⟩
  · exact .inl (by omega)
  · exact .inr (by omega)

/-- The code point that a run leads to is reached by no run again. -/
theorem lowered_image {run : CaseRun} {i : Nat} (hrun : run ∈ caseRuns) (hi : i ≤ run.last - run.first)
    (hstride : i % run.stride = 0) : Lowered (Char.ofNat (run.image (run.first + i))) := by
  obtain ⟨hlands, hfirst⟩ := lands_caseRuns run hrun
  have hmisses : ∀ other ∈ caseRuns, other.Misses (run.image (run.first + i)) := fun other hother =>
    CaseRun.misses_image hlands (List.all_eq_true.mp (List.all_eq_true.mp apart_caseRuns run hrun) other hother)
      hfirst hi hstride
  have hle := CaseRun.image_le hi hfirst
  have hadd := CaseRun.image_add hlands i
  have htoNat := toNat_ofNat (isValidChar_image hrun hi)
  obtain ⟨hlarge, hdotted, hsigma, -⟩ := hlands
  generalize run.image (run.first + i) = n at *
  refine ⟨?_, ?_, ?_, ?_⟩
  · intro heq
    have hn : n = 931 := by rw [← htoNat, heq]; rfl
    omega
  · intro heq
    have hn : n = 304 := by rw [← htoNat, heq]; rfl
    omega
  · rintro ⟨-, hZ⟩
    have hn : n ≤ 90 := by rw [← htoNat]; exact hZ
    omega
  · rw [htoNat]
    exact fun _ => lowerCodePoint_of_misses hmisses

private theorem above_marks_caseRuns : ∀ run ∈ caseRuns, 96 < run.image run.first := by
  decide +kernel

/-- What a character becomes is its own lower case, and if it is another character, then none in front of the
small letters. -/
theorem of_mem_lowerChar (h : d ∈ lowerChar left c right) : Lowered d ∧ (d = c ∨ 96 < d.toNat) := by
  rw [lowerChar] at h
  split at h
  · rw [List.mem_singleton] at h
    subst h
    split
    · exact ⟨⟨by decide, by decide, by decide, fun _ => by decide +kernel⟩, .inr (by decide)⟩
    · exact ⟨⟨by decide, by decide, by decide, fun _ => by decide +kernel⟩, .inr (by decide)⟩
  · rename_i hsigma
    split at h
    · rcases List.mem_cons.mp h with rfl | h
      · exact ⟨lowered_of_ascii (by decide) (by decide), .inr (by decide)⟩
      · rw [List.mem_singleton.mp h]
        exact ⟨⟨by decide, by decide, by decide, fun _ => by decide +kernel⟩, .inr (by decide)⟩
    · rename_i hdotted
      split at h
      · rename_i hcapital
        rw [Bool.and_eq_true, decide_eq_true_eq, decide_eq_true_eq] at hcapital
        rw [List.mem_singleton.mp h]
        have hA : 65 ≤ c.toNat := hcapital.1
        have hZ : c.toNat ≤ 90 := hcapital.2
        have htoNat : (Char.ofNat (c.toNat + 32)).toNat = c.toNat + 32 := toNat_ofNat (.inl (by omega))
        exact ⟨lowered_of_capital hcapital.1 hcapital.2, .inr (by omega)⟩
      · rename_i hcapital
        split at h
        · rename_i hsmall
          rw [List.mem_singleton.mp h]
          exact ⟨lowered_of_ascii hsmall (by simpa using hcapital), .inl rfl⟩
        · rename_i hlarge
          rw [List.mem_singleton.mp h]
          rcases lowerCodePoint_cases c.toNat caseRuns with hsame | ⟨run, hrun, i, hi, hstride, himage⟩
          · rw [hsame, Char.ofNat_toNat]
            exact ⟨⟨by simpa using hsigma, by simpa using hdotted, by simpa using hcapital, fun _ => hsame⟩,
              .inl rfl⟩
          · have habove := above_marks_caseRuns run hrun
            have hadd := CaseRun.image_add (lands_caseRuns run hrun).1 i
            rw [himage]
            refine ⟨lowered_image hrun hi hstride, .inr ?_⟩
            rw [toNat_ofNat (isValidChar_image hrun hi)]
            omega

theorem lowered_of_mem_lowerFrom (h : d ∈ lowerFrom left text) : Lowered d := by
  induction text generalizing left with
  | nil => cases h
  | cons c rest ih =>
    rcases List.mem_append.mp h with hhead | hrest
    · exact (of_mem_lowerChar hhead).1
    · exact ih hrest

/-- Lower case brings in no mark. -/
theorem mem_of_mem_lowerFrom (hmark : d.toNat ≤ 96) (h : d ∈ lowerFrom left text) : d ∈ text := by
  induction text generalizing left with
  | nil => cases h
  | cons c rest ih =>
    rcases List.mem_append.mp h with hhead | hrest
    · rcases (of_mem_lowerChar hhead).2 with rfl | hlarge
      · exact List.mem_cons_self ..
      · omega
    · exact List.mem_cons_of_mem _ (ih hrest)

theorem lowerFrom_ne_nil (left : List Char) (h : text ≠ []) : lowerFrom left text ≠ [] := by
  obtain ⟨c, rest, rfl⟩ := List.exists_cons_of_ne_nil h
  have hchar : lowerChar left c rest ≠ [] := by
    rw [lowerChar]
    split_ifs <;> exact List.cons_ne_nil _ _
  rw [lowerFrom]
  exact mt List.append_eq_nil_iff.mp fun hnil => hchar hnil.1

theorem lower_lower (text : List Char) : lower (lower text) = lower text :=
  lowerFrom_of_lowered [] fun _ h => lowered_of_mem_lowerFrom h

end LineCensus.Text
