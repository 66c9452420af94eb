import LineCensus.Proofs.BatchRun
import LineCensus.Proofs.FolderEnd

/-! The progress of a run in percent. Both loops, over the batches of a text and over the sources of a folder, report
once for each round, and the reports rise strictly up to exactly one hundred. -/
namespace LineCensus

open Numeric (Binary64)

/-- Reports as they should be of `total` rounds: one for each round, correctly rounded, strictly increasing, above
zero and not above one hundred, which is the last. -/
structure IsHonest (total : Nat) (reported : List Binary64) : Prop where
  length_eq : reported.length = total
  nearest : ∀ (i : Nat) (h : i < reported.length), reported[i].IsNearest (100 * (i + 1) / total)
  increasing : reported.Pairwise (·.value < ·.value)
  bounded : ∀ percent ∈ reported, 0 < percent.value ∧ percent.value ≤ 100
  last : reported.getLast?.map Binary64.value = some 100

section Rounds

variable {done later total : Nat}

/-- A hundred times the rounds behind is exact, so only the division rounds. -/
theorem isNearest_progress (hdone : 100 * done < 2 ^ 53) (htotal : 0 < total) :
    (progress done total).IsNearest (100 * done / total) := by
  obtain ⟨m, e, hhundred, hvalue⟩ := Binary64.exists_ofQuotient_one (by decide : 100 < 2 ^ 53)
  have hproduct : (Binary64.finite false m e).value * done = (100 * done : Nat) := by
    rw [hvalue, Nat.cast_mul]
  obtain ⟨m', e', htimes, hnearest'⟩ := Binary64.exists_timesNat_isNearest
    (hproduct.trans_lt (Binary64.natCast_in_range hdone))
  have hvalue' : (Binary64.finite false m' e').value = (100 * done : Nat) :=
    (hproduct ▸ hnearest').value_of_nat hdone
  have hquotient : (Binary64.finite false m' e').value / total < 2 ^ 1023 := by
    rw [hvalue']
    exact (div_le_self (Nat.cast_nonneg _) (mod_cast htotal)).trans_lt (Binary64.natCast_in_range hdone)
  obtain ⟨m'', e'', hover, hrounded⟩ := Binary64.exists_overNat_isNearest htotal hquotient
  rw [hvalue', Nat.cast_mul, Nat.cast_ofNat] at hrounded
  rw [progress, hhundred, htimes, hover]
  exact hrounded

private theorem abs_progress_sub_le (hdone : done ≤ total) (htotal : 0 < total) (hmost : total ≤ 90000000000000) :
    |(progress done total).value - 100 * done / total| ≤ 2 ^ (-47 : ℤ) := by
  have hnearest := isNearest_progress (by omega : 100 * done < 2 ^ 53) htotal
  have hcast : (100 * done : ℚ) = (100 * done : Nat) := by push_cast; rfl
  rw [hcast] at hnearest ⊢
  refine hnearest.abs_sub_le htotal (k := 7) (by decide) (by decide) ?_
  rw [div_lt_iff₀ (Nat.cast_pos.mpr htotal)]
  exact_mod_cast (by omega : 100 * done < 128 * total)

/-- Two rounds are farther apart than rounding can bring them together. -/
theorem progress_lt_progress (hlt : done < later) (hlater : later ≤ total) (hmost : total ≤ 90000000000000) :
    (progress done total).value < (progress later total).value := by
  have htotal : 0 < total := by omega
  have hearly := abs_le.mp (abs_progress_sub_le (hlt.le.trans hlater) htotal hmost)
  have hlate := abs_le.mp (abs_progress_sub_le hlater htotal hmost)
  have hapart : (100 * done / total : ℚ) + 2 ^ (-46 : ℤ) < 100 * later / total := by
    have hstep : (done : ℚ) + 1 ≤ later := mod_cast hlt
    have hmost : (total : ℚ) ≤ 90000000000000 := mod_cast hmost
    rw [← lt_sub_iff_add_lt', ← sub_div, lt_div_iff₀ (Nat.cast_pos.mpr htotal)]
    norm_num
    linarith
  have hhalves : (2 : ℚ) ^ (-47 : ℤ) + 2 ^ (-47 : ℤ) = 2 ^ (-46 : ℤ) := by norm_num
  linarith

private theorem progress_zero (htotal : 0 < total) : (progress 0 total).value = 0 := by
  have hnearest := isNearest_progress (by decide : 100 * 0 < 2 ^ 53) htotal
  rw [Nat.cast_zero, mul_zero, zero_div] at hnearest
  exact hnearest.value_of_nat (by decide)

private theorem progress_self (htotal : 0 < total) (hmost : total ≤ 90000000000000) :
    (progress total total).value = 100 := by
  have hnearest := isNearest_progress (by omega : 100 * total < 2 ^ 53) htotal
  rw [mul_div_assoc, div_self (Nat.cast_ne_zero.mpr htotal.ne'), mul_one] at hnearest
  exact hnearest.value_of_nat (by decide)

private theorem progress_bounded (hdone : 0 < done) (hle : done ≤ total) (hmost : total ≤ 90000000000000) :
    0 < (progress done total).value ∧ (progress done total).value ≤ 100 := by
  have htotal : 0 < total := by omega
  have hpos := progress_lt_progress hdone hle hmost
  rw [progress_zero htotal] at hpos
  refine ⟨hpos, ?_⟩
  rw [← progress_self htotal hmost]
  rcases hle.lt_or_eq with hlt | rfl
  · exact (progress_lt_progress hlt le_rfl hmost).le
  · exact le_rfl

private theorem isHonest_rounds (htotal : 1 ≤ total) (hmost : total ≤ 90000000000000) :
    IsHonest total ((List.range total).map fun i => progress (i + 1) total) where
  length_eq := by rw [List.length_map, List.length_range]
  nearest i h := by
    rw [List.length_map, List.length_range] at h
    rw [List.getElem_map, List.getElem_range]
    exact_mod_cast isNearest_progress (by omega : 100 * (i + 1) < 2 ^ 53) htotal
  increasing := by
    rw [List.pairwise_map]
    refine (List.pairwise_lt_range).imp_of_mem fun hi hj hlt => ?_
    exact progress_lt_progress (Nat.succ_lt_succ hlt) (List.mem_range.mp hj) hmost
  bounded := by
    intro percent hmem
    obtain ⟨i, hi, rfl⟩ := List.mem_map.mp hmem
    exact progress_bounded (Nat.succ_pos i) (List.mem_range.mp hi) hmost
  last := by
    obtain ⟨n, rfl⟩ := Nat.exists_eq_add_of_le' htotal
    rw [List.range_succ, List.map_append, List.map_singleton, List.getLast?_concat, Option.map_some,
      progress_self htotal hmost]

end Rounds

namespace Batch

variable {σ α β : Type} {size asked : Nat} {step : σ → α → β × σ} {pace : Pace} {answers : Option Answers}
  {state : σ} {lines : List α}

/-- A run that is not stopped has had no answer to stop. -/
theorem stopsAt_eq_false_of_running (h : (run size step pace answers asked state lines).stopped = false) (i : Nat)
    (hi : i + 1 < count size lines.length) : stopsAt pace answers (asked + i) = false := by
  by_contra hne
  have hstop : ∃ j, stopsAt pace answers (asked + j) = true := ⟨i, by simpa using hne⟩
  have hle : Nat.find hstop ≤ i := Nat.find_min' hstop (by simpa using hne)
  have hearlier : ∀ j < Nat.find hstop, stopsAt pace answers (asked + j) = false := fun j hj => by
    simpa using Nat.find_min hstop hj
  have hstopped : (run size step pace answers asked state lines).stopped = true :=
    (asked_run_stopped (by omega) hearlier (Nat.find_spec hstop)).1
  rw [h] at hstopped
  cases hstopped

private theorem reported_run (h : (run size step pace answers asked state lines).stopped = false) :
    (run size step pace answers asked state lines).reported =
      (List.range (count size lines.length)).map fun i => progress (i + 1) (count size lines.length) := by
  rw [reported_eq, events_run (stopsAt_eq_false_of_running h), reported_trace]

end Batch

def FolderEvent.percent? : FolderEvent → Option Binary64
  | .progress percent => some percent
  | _ => none

def Survey.percents (survey : Survey) : List Binary64 :=
  survey.events.toList.filterMap FolderEvent.percent?

private theorem Survey.percents_note (survey : Survey) (event : FolderEvent) :
    (survey.note event).percents = survey.percents ++ event.percent?.toList := by
  rw [percents, note, Array.toList_push, List.filterMap_append]
  cases event <;> rfl

private theorem Survey.percents_refuse (survey : Survey) (filename : String) (e : AnalysisError) :
    (survey.refuse filename e).2.percents = survey.percents := by
  cases e with
  | cancelled name => rfl
  | _ => exact (percents_note ..).trans (List.append_nil _)

namespace Analyzer

variable {a : Analyzer} {answers : Option Answers}

/-- The turn of a source itself reports nothing. -/
theorem percents_readSource (survey : Survey) (source : Source) :
    (a.readSource answers survey source).2.percents = survey.percents := by
  have hloaded : (survey.note (.loaded source)).percents = survey.percents :=
    (Survey.percents_note ..).trans (List.append_nil _)
  rw [readSource]
  split
  · exact Survey.percents_refuse ..
  · dsimp only
    split
    · exact (Survey.percents_refuse ..).trans hloaded
    · exact (Survey.percents_refuse ..).trans hloaded
    · exact hloaded
    · split
      · exact (Survey.percents_refuse ..).trans hloaded
      · exact ((Survey.percents_note ..).trans (List.append_nil _)).trans hloaded

/-- A run that comes to its end reports once behind each of the remaining sources. -/
theorem percents_readSources (total done : Nat) (survey : Survey) (sources : List Source) {folder : Folder}
    (h : (a.readSources answers total done survey sources).outcome = .ok folder) :
    (a.readSources answers total done survey sources).events.toList.filterMap FolderEvent.percent? =
      survey.percents ++ (List.range sources.length).map fun i => progress (done + i + 1) total := by
  induction sources generalizing done survey with
  | nil => exact (List.append_nil _).symm
  | cons source rest ih =>
    have hturn : (a.readSource answers survey source).2.percents = survey.percents :=
      percents_readSource survey source
    rw [readSources] at h ⊢
    split at h
    · cases h
    · rename_i next hnext
      rw [hnext] at hturn
      have hreport : (next.note (.progress (progress (done + 1) total))).percents =
          survey.percents ++ [progress (done + 1) total] := by
        rw [Survey.percents_note, hturn]
        rfl
      have hshift : (fun i => progress (done + i + 1) total) ∘ Nat.succ =
          fun i => progress (done + 1 + i + 1) total := by
        funext i
        rw [Function.comp_apply, Nat.add_right_comm done 1 i]
        rfl
      rw [ih _ _ h, hreport, List.length_cons, List.range_succ_eq_map, List.map_cons, List.map_map, hshift,
        List.append_assoc, List.singleton_append, Nat.add_zero]

private theorem reported_readFolder {sources : List Source} {folder : Folder}
    (h : (a.readFolder answers sources).outcome = .ok folder) :
    (a.readFolder answers sources).reported =
      (List.range sources.length).map fun i => progress (i + 1) sources.length := by
  have hpercents := percents_readSources sources.length 0 {} sources h
  have hnone : ({} : Survey).percents = [] := rfl
  simp only [hnone, List.nil_append, Nat.zero_add] at hpercents
  rw [readFolder, ← hpercents]
  unfold FolderRun.reported
  congr 1

end Analyzer

/-- A run that comes to its end, over the batches of a text at either pace or over the sources of a folder, has
reported honestly. Sources that are left out are rounds like all others. -/
theorem progress_is_honest {σ α β : Type} (size : Nat) (step : σ → α → β × σ) (pace : Batch.Pace) (asked : Nat)
    (state : σ) (lines : List α) (a : Analyzer) (sources : List Source) (answers : Option Answers) :
    (1 ≤ Batch.count size lines.length → Batch.count size lines.length ≤ 90000000000000 →
      (Batch.run size step pace answers asked state lines).stopped = false →
      IsHonest (Batch.count size lines.length) (Batch.run size step pace answers asked state lines).reported) ∧
    (1 ≤ sources.length → sources.length ≤ 90000000000000 →
      (∃ folder, (a.readFolder answers sources).outcome = .ok folder) →
      IsHonest sources.length (a.readFolder answers sources).reported) := by
  constructor
  · intro htotal hmost hrunning
    rw [Batch.reported_run hrunning]
    exact isHonest_rounds htotal hmost
  · rintro htotal hmost ⟨folder, hfolder⟩
    rw [Analyzer.reported_readFolder hfolder]
    exact isHonest_rounds htotal hmost

/-- Three batches, and three sources of which two are left out: both runs end with the third report. -/
theorem progress_is_honest_of_three :
    let a : Analyzer := {}
    let sources : List Source := [
      { name := "notes.txt", load := .text "x = 1".toList },
      { name := "a.py", load := .unreadable "no such file" },
      { name := "b.py", load := .text "x = 1".toList }]
    let work := Batch.run 2 (fun sum n => (sum + n, sum + n)) .cooperative none 0 0 [3, 1, 4, 1, 5]
    Batch.count 2 5 = 3 ∧ work.stopped = false ∧ IsHonest 3 work.reported ∧
      (∃ folder, (a.readFolder none sources).outcome = .ok folder) ∧
      IsHonest 3 (a.readFolder none sources).reported := by
  intro a sources work
  have hcount : Batch.count 2 [3, 1, 4, 1, 5].length = 3 := by decide +kernel
  have hrunning : work.stopped = false := by decide +kernel
  have hpasses : a.Passes none sources := ⟨by decide, fun _ _ => rfl⟩
  obtain ⟨survey, -, hrun⟩ := Analyzer.readFolder_passes hpasses []
  rw [List.append_nil] at hrun
  have hfolder : ∃ folder, (a.readFolder none sources).outcome = .ok folder := ⟨_, by rw [hrun]; rfl⟩
  obtain ⟨hbatches, hsources⟩ := progress_is_honest 2 (fun sum n => (sum + n, sum + n)) .cooperative 0 0
    [3, 1, 4, 1, 5] a sources none
  rw [hcount] at hbatches
  exact ⟨hcount, hrunning, hbatches (by decide) (by decide) hrunning, hfolder,
    hsources (by decide) (by decide) hfolder⟩

end LineCensus
