import LineCensus.Analysis.File
import LineCensus.Proofs.BatchRun

/-! The lines of a text and the counters of its entry: every line stands in exactly one counter, and no
line is lost while the number of batches is exact. -/
namespace LineCensus

private theorem Text.length_attach (c : Char) {pieces : List (List Char)} (h : pieces ≠ []) :
    (attach c pieces).length = pieces.length := by
  cases pieces with
  | nil => exact absurd rfl h
  | cons piece rest => rfl

private theorem Text.length_splitWhere (cut : Char → Bool) (text : List Char) :
    (splitWhere cut text).length = text.countP cut + 1 := by
  induction text with
  | nil => rfl
  | cons c rest ih =>
    have hne : splitWhere cut rest ≠ [] := by
      intro h
      rw [h] at ih
      exact absurd ih (by simp)
    have hcons : splitWhere cut (c :: rest) =
        if cut c then [] :: splitWhere cut rest else attach c (splitWhere cut rest) := rfl
    rw [hcons]
    split
    · rename_i h
      rw [List.length_cons, ih, List.countP_cons_of_pos h]
    · rename_i h
      rw [length_attach c hne, ih, List.countP_cons_of_neg h]

/-- A text has one line more than line feeds. -/
theorem Text.length_splitAt (sep : Char) (text : List Char) :
    (splitAt sep text).length = text.count sep + 1 :=
  length_splitWhere (· == sep) text

namespace Stats

def Balanced (stats : Stats) : Prop :=
  stats.blank + stats.comment + stats.code = stats.total

private theorem balanced_count {stats : Stats} (h : stats.Balanced) (result : LineResult) :
    (stats.count result).Balanced := by
  unfold Balanced at h ⊢
  cases hkind : result.kind <;> simp only [count, hkind] <;> omega

private theorem balanced_foldl {stats : Stats} (h : stats.Balanced) (results : List LineResult) :
    (results.foldl count stats).Balanced := by
  induction results generalizing stats with
  | nil => exact h
  | cons result rest ih => exact ih (balanced_count h result)

theorem balanced_ofResults (results : List LineResult) : (ofResults results).Balanced :=
  balanced_foldl (show Balanced {} from rfl) results

private theorem total_count (stats : Stats) (result : LineResult) :
    (stats.count result).total = stats.total + 1 := by
  cases hkind : result.kind <;> simp only [count, hkind]

private theorem total_foldl (stats : Stats) (results : List LineResult) :
    (results.foldl count stats).total = stats.total + results.length := by
  induction results generalizing stats with
  | nil => simp
  | cons result rest ih =>
    rw [List.foldl_cons, ih, total_count, List.length_cons]
    omega

theorem total_ofResults (results : List LineResult) : (ofResults results).total = results.length := by
  rw [ofResults, total_foldl]
  exact Int.zero_add _

end Stats

namespace Analyzer

variable {a : Analyzer} {filename : String} {text : List Char} {language : Language}

/-- The name is judged first, and then the number of lines. -/
theorem prepare_eq (a : Analyzer) (filename : String) (text : List Char) :
    a.prepare filename text = match a.registry.resolve? filename with
      | none => .error (.unsupportedLanguage filename)
      | some language =>
        if a.settings.maxLines < text.count '\n' + 1 then
          .error (.inputTooLarge filename ↑(text.count '\n' + 1) a.settings.maxLines "lines")
        else .ok (language, Text.splitAt '\n' text) := by
  cases hname : a.registry.resolve? filename with
  | none =>
    simp only [prepare, Analyzer.language, hname]
    rfl
  | some language =>
    simp only [prepare, Analyzer.language, hname, splitLines, Text.length_splitAt, Int.ofNat_lt]
    split <;> rfl

private theorem prepare_eq_ok (hname : a.registry.resolve? filename = some language)
    (hfit : text.count '\n' + 1 ≤ a.settings.maxLines) :
    a.prepare filename text = .ok (language, Text.splitAt '\n' text) := by
  simp only [prepare_eq, hname]
  rw [if_neg (Nat.not_lt.mpr hfit)]

/-- A name without a language is refused, however long the text is. -/
theorem readText_of_unsupported (pace : Batch.Pace) (answers : Option Answers) (asked : Nat) (text : List Char)
    (hname : a.registry.resolve? filename = none) :
    a.readText pace answers asked filename text = { outcome := .error (.unsupportedLanguage filename), asked } := by
  simp only [readText, prepare_eq, hname]

/-- A text with too many lines is refused before any of them is read. -/
theorem readText_of_tooLong (pace : Batch.Pace) (answers : Option Answers) (asked : Nat)
    (hname : a.registry.isSupported filename = true) (hlong : a.settings.maxLines < text.count '\n' + 1) :
    a.readText pace answers asked filename text =
      { outcome := .error (.inputTooLarge filename ↑(text.count '\n' + 1) a.settings.maxLines "lines"), asked } := by
  obtain ⟨language, hlanguage⟩ := Option.isSome_iff_exists.mp hname
  simp only [readText, prepare_eq, hlanguage, if_pos hlong]

/-- A text whose run is not stopped has an entry of what its lines come to one by one, as far as there are
batches for them, and one question is asked between two batches. -/
theorem readText_unstopped (pace : Batch.Pace) {answers : Option Answers} (asked : Nat)
    (hname : a.registry.resolve? filename = some language)
    (hfit : text.count '\n' + 1 ≤ a.settings.maxLines)
    (hgo : ∀ i, i + 1 < Batch.count a.settings.chunkSize (text.count '\n' + 1) →
      Batch.stopsAt pace answers (asked + i) = false) :
    (a.readText pace answers asked filename text).outcome =
      .ok ⟨filename, language.name, .ofResults (readAll language.readLine .normal
        ((Text.splitAt '\n' text).take (Batch.count a.settings.chunkSize (text.count '\n' + 1) *
          a.settings.chunkSize))).1⟩ ∧
    (a.readText pace answers asked filename text).asked =
      asked + Batch.questions pace answers
        (Batch.count a.settings.chunkSize (text.count '\n' + 1) - 1) := by
  rw [← Text.length_splitAt] at hgo
  have hread : (Batch.run a.settings.chunkSize language.readLine pace answers asked .normal
      (Text.splitAt '\n' text)).HasRead language.readLine .normal _ := Batch.run_hasRead hgo
  have hasked : (Batch.run a.settings.chunkSize language.readLine pace answers asked .normal
      (Text.splitAt '\n' text)).asked = _ := Batch.asked_run hgo
  rw [Text.length_splitAt] at hread hasked
  simp only [readText, prepare_eq_ok hname hfit, hread.running, hread.results, hasked, and_true]
  rfl

theorem outcome_readText (pace : Batch.Pace) {answers : Option Answers} (asked : Nat)
    (hname : a.registry.resolve? filename = some language)
    (hfit : text.count '\n' + 1 ≤ a.settings.maxLines)
    (hgo : ∀ n, Batch.stopsAt pace answers n = false) :
    (a.readText pace answers asked filename text).outcome =
      .ok ⟨filename, language.name, .ofResults (readAll language.readLine .normal
        ((Text.splitAt '\n' text).take (Batch.count a.settings.chunkSize (text.count '\n' + 1) *
          a.settings.chunkSize))).1⟩ :=
  (readText_unstopped pace asked hname hfit fun i _ => hgo (asked + i)).1

/-- An answer to stop in one of the pauses is the last one, and the text has no entry. -/
theorem readText_stopped {pace : Batch.Pace} {answers : Option Answers} {asked i : Nat}
    (hname : a.registry.resolve? filename = some language)
    (hfit : text.count '\n' + 1 ≤ a.settings.maxLines)
    (hlt : i + 1 < Batch.count a.settings.chunkSize (text.count '\n' + 1))
    (hfirst : ∀ j < i, Batch.stopsAt pace answers (asked + j) = false)
    (hstop : Batch.stopsAt pace answers (asked + i) = true) :
    (a.readText pace answers asked filename text).outcome = .error (.cancelled "") ∧
      (a.readText pace answers asked filename text).asked = asked + i + 1 := by
  rw [← Text.length_splitAt] at hlt
  have hrun : (Batch.run a.settings.chunkSize language.readLine pace answers asked .normal
      (Text.splitAt '\n' text)).stopped = true ∧ _ := Batch.asked_run_stopped hlt hfirst hstop
  simp only [readText, prepare_eq_ok hname hfit, hrun.1, hrun.2, if_true, true_and]

/-- Without an answer to stop, both paces come to one entry for a text of allowed length, and each line
that a batch holds stands in exactly one of its counters. Up to `2 ^ 53` lines these are all lines of the
text, unless the size of a batch exceeds their number so far that the binary64 quotient is zero. -/
theorem readText_counts_lines (a : Analyzer) (filename : String) (text : List Char)
    (answers : Option Answers) (asked : Nat) (hname : a.registry.isSupported filename = true)
    (hfit : text.count '\n' + 1 ≤ a.settings.maxLines)
    (hgo : ∀ n, Batch.stopsAt .cooperative answers n = false) :
    ∃ entry, (a.readText .immediate none asked filename text).outcome = .ok entry ∧
      (a.readText .cooperative answers asked filename text).outcome = .ok entry ∧
      entry.stats.blank + entry.stats.comment + entry.stats.code = entry.stats.total ∧
      (entry.stats.total = ↑(text.count '\n' + 1) ↔ text.count '\n' + 1 ≤
        Batch.count a.settings.chunkSize (text.count '\n' + 1) * a.settings.chunkSize) ∧
      (text.count '\n' + 1 ≤ 2 ^ 53 → entry.stats.total =
        if a.settings.chunkSize < (text.count '\n' + 1) * 2 ^ 1075 then ↑(text.count '\n' + 1) else 0) := by
  obtain ⟨language, hlanguage⟩ := Option.isSome_iff_exists.mp hname
  refine ⟨_, outcome_readText .immediate asked hlanguage hfit (fun _ => rfl),
    outcome_readText .cooperative asked hlanguage hfit hgo, Stats.balanced_ofResults _, ?_, ?_⟩
  · rw [Stats.total_ofResults, length_readAll, List.length_take, Text.length_splitAt]
    omega
  · intro hl
    have hs := a.settings.chunkSize_pos
    rw [Stats.total_ofResults, length_readAll, List.length_take, Text.length_splitAt,
      Batch.count_eq hs hl]
    have hceil : text.count '\n' + 1 ≤
        (text.count '\n' + 1) ⌈/⌉ a.settings.chunkSize * a.settings.chunkSize := by
      rw [Nat.mul_comm]
      exact (ceilDiv_le_iff_le_mul hs).mp le_rfl
    split
    · rename_i h
      rw [if_neg (Nat.not_lt.mpr h)]
      simp
    · rename_i h
      rw [if_pos (Nat.lt_of_not_le h), Nat.min_eq_right hceil]

/-- Three lines in batches of two, read with questions that are all answered with no. -/
theorem readText_counts_three_lines :
    let text := "x = 1\n\n# y".toList
    ∃ a : Analyzer, a.settings.chunkSize = 2 ∧ a.registry.isSupported "a.py" = true ∧
      text.count '\n' + 1 ≤ a.settings.maxLines ∧
      (∀ n, Batch.stopsAt .cooperative (some fun _ => false) n = false) ∧
      ∃ entry, (a.readText .immediate none 0 "a.py" text).outcome = .ok entry ∧
        (a.readText .cooperative (some fun _ => false) 0 "a.py" text).outcome = .ok entry ∧
        entry.stats.blank + entry.stats.comment + entry.stats.code = 3 ∧ entry.stats.total = 3 := by
  intro text
  let a : Analyzer := { settings := { chunkSize := 2 } }
  have hname : a.registry.isSupported "a.py" = true := by decide
  have hfit : text.count '\n' + 1 ≤ a.settings.maxLines := by decide
  have hgo (n : Nat) : Batch.stopsAt .cooperative (some fun _ => false) n = false := rfl
  obtain ⟨entry, himmediate, hcooperative, hsum, htotal, -⟩ :=
    readText_counts_lines a "a.py" text (some fun _ => false) 0 hname hfit hgo
  have hthree : entry.stats.total = 3 := htotal.mpr (by decide +kernel)
  exact ⟨a, rfl, hname, hfit, hgo, entry, himmediate, hcooperative, hsum.trans hthree, hthree⟩

/-- A single line in a batch of `2 ^ 1075` lines is lost: half the least binary64 number is rounded
down to zero batches. -/
theorem readText_loses_line :
    ∃ a : Analyzer, ∃ entry, 1 ≤ a.settings.maxLines ∧
      (a.readText .immediate none 0 "a.py" "x = 1".toList).outcome = .ok entry ∧
      (a.readText .cooperative none 0 "a.py" "x = 1".toList).outcome = .ok entry ∧
      entry.stats.total = 0 ∧ (Text.splitAt '\n' "x = 1".toList).length = 1 := by
  let a : Analyzer := { settings := { chunkSize := 2 ^ 1075, chunkSize_pos := Nat.two_pow_pos 1075 } }
  obtain ⟨language, hlanguage⟩ : ∃ language, a.registry.resolve? "a.py" = some language :=
    Option.isSome_iff_exists.mp (by decide)
  have hfit : "x = 1".toList.count '\n' + 1 ≤ 100000 := by decide
  refine ⟨a, _, (by decide : 1 ≤ 100000), outcome_readText .immediate 0 hlanguage hfit fun _ => rfl,
    outcome_readText .cooperative 0 hlanguage hfit fun _ => rfl, ?_, by decide⟩
  have hcount : Batch.count a.settings.chunkSize ("x = 1".toList.count '\n' + 1) = 0 := by
    decide +kernel
  rw [hcount, Nat.zero_mul, List.take_zero]
  rfl

end Analyzer
end LineCensus
