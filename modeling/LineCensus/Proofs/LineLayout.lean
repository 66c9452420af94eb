import LineCensus.Analysis.File
import LineCensus.Proofs.CommentEdits
import LineCensus.Proofs.Padding

/-! The layout of a file: blank characters around its lines, carriage returns in front of its line feeds,
and blank lines between the others. None of them changes what is counted, but for the blank lines
themselves. -/
namespace LineCensus

open Text (trim)

namespace Text

variable {text edited : List Char}

inductive ReturnsAdded : List Char → List Char → Prop where
  | nil : ReturnsAdded [] []
  | keep (c : Char) {text edited : List Char} (h : ReturnsAdded text edited) :
    ReturnsAdded (c :: text) (c :: edited)
  | feed {text edited : List Char} (h : ReturnsAdded text edited) :
    ReturnsAdded ('\n' :: text) ('\r' :: '\n' :: edited)

private theorem ReturnsAdded.refl (text : List Char) : ReturnsAdded text text := by
  induction text with
  | nil => exact .nil
  | cons c rest ih => exact .keep c ih

/-- The lines are the same up to carriage returns at their ends. -/
theorem ReturnsAdded.blankBehind (h : ReturnsAdded text edited) :
    List.Forall₂ BlankBehind (splitAt '\n' text) (splitAt '\n' edited) := by
  induction h with
  | nil => exact .cons (.refl _) .nil
  | @keep c text edited h ih =>
    by_cases hc : c = '\n'
    · rw [hc, splitAt_cons_self, splitAt_cons_self]
      exact .cons (.refl _) ih
    · rw [splitAt_cons_of_ne hc, splitAt_cons_of_ne hc]
      exact blankBehind_attach c ih
  | @feed text edited h ih =>
    rw [splitAt_cons_self, splitAt_cons_of_ne (by decide), splitAt_cons_self]
    exact .cons ⟨['\r'], List.forall_mem_singleton.mpr (by decide), rfl⟩ ih

end Text

/-- Lines become others with `k` blank lines put between them, in front of them or behind them. -/
inductive BlanksInserted : Nat → List (List Char) → List (List Char) → Prop where
  | nil : BlanksInserted 0 [] []
  | keep (line : List Char) {k : Nat} {lines edited : List (List Char)}
    (h : BlanksInserted k lines edited) : BlanksInserted k (line :: lines) (line :: edited)
  | blank {line : List Char} (hline : trim line = []) {k : Nat} {lines edited : List (List Char)}
    (h : BlanksInserted k lines edited) : BlanksInserted (k + 1) lines (line :: edited)

namespace Stats

def withBlanks (stats : Stats) (k : Nat) : Stats :=
  { stats with blank := stats.blank + k, total := stats.total + k }

private theorem withBlanks_withBlanks (stats : Stats) (j k : Nat) :
    (stats.withBlanks j).withBlanks k = stats.withBlanks (j + k) := by
  simp only [withBlanks, Int.natCast_add, Int.add_assoc]

private theorem count_withBlanks (stats : Stats) (k : Nat) (result : LineResult) :
    (stats.withBlanks k).count result = (stats.count result).withBlanks k := by
  cases hkind : result.kind <;> simp only [count, withBlanks, hkind, Stats.mk.injEq, true_and] <;> omega

private theorem foldl_withBlanks (stats : Stats) (k : Nat) (results : List LineResult) :
    results.foldl count (stats.withBlanks k) = (results.foldl count stats).withBlanks k := by
  induction results generalizing stats with
  | nil => rfl
  | cons result rest ih => rw [List.foldl_cons, List.foldl_cons, count_withBlanks, ih]

private theorem count_blank (stats : Stats) : stats.count ⟨.blank, 0⟩ = stats.withBlanks 1 := by
  simp only [count, withBlanks, Int.add_zero, Int.natCast_one]

end Stats

namespace Language

variable {language : Language} {line other : List Char} {lines edited : List (List Char)} {k : Nat}

/-- What is known of a line depends on what trimming leaves of it. -/
theorem readLine_congr (language : Language) (region : Region) (h : trim other = trim line) :
    language.readLine region other = language.readLine region line := by
  simp only [readLine, Delimiters.classify, countVariables, h]

private theorem readLine_blank (region : Region) (h : trim line = []) :
    language.readLine region line = (⟨.blank, 0⟩, region) := by
  simp [readLine, Delimiters.classify, h]

private theorem readAll_padded (language : Language) (region : Region) (h : List.Forall₂ Text.Padded lines edited) :
    readAll language.readLine region edited = readAll language.readLine region lines ∧
      statesBefore language.readLine region edited = statesBefore language.readLine region lines := by
  induction h generalizing region with
  | nil => exact ⟨rfl, rfl⟩
  | @cons line _ _ _ hline _ ih =>
    obtain ⟨hresults, hstates⟩ := ih (language.readLine region line).2
    have hread := language.readLine_congr region hline.trim_eq
    simp only [readAll_cons, statesBefore_cons, hread, hresults, hstates, and_self]

private theorem readAll_blanksInserted (language : Language) (region : Region) (stats : Stats)
    (h : BlanksInserted k lines edited) :
    (readAll language.readLine region edited).1.foldl Stats.count stats =
        ((readAll language.readLine region lines).1.foldl Stats.count stats).withBlanks k ∧
      (readAll language.readLine region edited).2 = (readAll language.readLine region lines).2 := by
  induction h generalizing region stats with
  | nil => exact ⟨by simp [Stats.withBlanks], rfl⟩
  | keep line _ ih =>
    simp only [readAll_cons, List.foldl_cons]
    exact ih _ _
  | blank hline _ ih =>
    obtain ⟨hcounts, hstate⟩ := ih region (stats.withBlanks 1)
    simp only [readAll_cons, readLine_blank region hline, List.foldl_cons, Stats.count_blank]
    rw [hcounts, Stats.foldl_withBlanks, Stats.withBlanks_withBlanks, Nat.add_comm]
    exact ⟨rfl, hstate⟩

def textStats (language : Language) (maxLines : Int) (filename : String) (text : List Char) :
    Except AnalysisError Stats :=
  (splitLines text maxLines filename).map fun lines =>
    Stats.ofResults (readAll language.readLine .normal lines).1

private theorem textStats_returnsAdded (maxLines : Int) (filename : String) {text other : List Char}
    (h : Text.ReturnsAdded text other) :
    language.textStats maxLines filename other = language.textStats maxLines filename text := by
  have hpadded := h.blankBehind.imp fun _ _ hline => hline.padded
  have hlength := hpadded.length_eq
  have hread := (language.readAll_padded .normal hpadded).1
  simp only [textStats, splitLines, hlength]
  split
  · rfl
  · simp only [Except.map, hread]

/-- Layout does not change what is counted, whatever the delimiters and the heuristic are. Blank
characters around lines change neither what is known of a line nor the region in which one begins,
carriage returns do not change the counters of a text, and each blank line more is counted as blank and
in total, even where it stands inside a block. -/
theorem layout_not_counted (language : Language) (lines : List (List Char)) :
    (∀ padded, List.Forall₂ Text.Padded lines padded →
      readAll language.readLine .normal padded = readAll language.readLine .normal lines ∧
      statesBefore language.readLine .normal padded = statesBefore language.readLine .normal lines) ∧
    (∀ text other, Text.ReturnsAdded text other → ∀ maxLines filename,
      language.textStats maxLines filename other = language.textStats maxLines filename text) ∧
    ∀ k edited, BlanksInserted k lines edited →
      let before := Stats.ofResults (readAll language.readLine .normal lines).1
      let after := Stats.ofResults (readAll language.readLine .normal edited).1
      after.comment = before.comment ∧ after.code = before.code ∧ after.declared = before.declared ∧
        after.blank = before.blank + k ∧ after.total = before.total + k ∧
        (readAll language.readLine .normal edited).2 = (readAll language.readLine .normal lines).2 := by
  refine ⟨fun padded h => language.readAll_padded .normal h,
    fun text other h maxLines filename => textStats_returnsAdded maxLines filename h, ?_⟩
  intro k edited h before after
  obtain ⟨hcounts, hstate⟩ := language.readAll_blanksInserted .normal {} h
  have hafter : after = before.withBlanks k := hcounts
  rw [hafter]
  exact ⟨rfl, rfl, rfl, rfl, rfl, hstate⟩

/-- A block of two lines and a declaration: indented, with a carriage return, and with blank lines inside
the block and at the end. -/
theorem layout_of_block_not_counted :
    let script := ofExtensions "JavaScript" [".js"] slashes Declaration.script
    let lines := ["/* one", "two */", "let x = 1"].map (·.toList)
    let padded := ["\t/* one", "  two */ ", "let x = 1\r"].map (·.toList)
    let edited := ["/* one", "", " \t", "two */", "let x = 1", ""].map (·.toList)
    let text := "/* one\ntwo */\nlet x = 1".toList
    let other := "/* one\r\ntwo */\nlet x = 1".toList
    let stats := Stats.ofResults (readAll script.readLine .normal lines).1
    (List.Forall₂ Text.Padded lines padded ∧
      readAll script.readLine .normal padded = readAll script.readLine .normal lines) ∧
    (Text.ReturnsAdded text other ∧
      script.textStats 3 "a.js" other = script.textStats 3 "a.js" text) ∧
    BlanksInserted 3 lines edited ∧ stats.comment = 2 ∧ stats.declared = 1 ∧
      (Stats.ofResults (readAll script.readLine .normal edited).1).comment = stats.comment ∧
      (Stats.ofResults (readAll script.readLine .normal edited).1).declared = stats.declared ∧
      (Stats.ofResults (readAll script.readLine .normal edited).1).blank = stats.blank + 3 := by
  intro script lines padded edited text other stats
  obtain ⟨haround, hreturns, hblanks⟩ := layout_not_counted script lines
  have hpadded : List.Forall₂ Text.Padded lines padded :=
    .cons ⟨['\t'], [], List.all_eq_true.mp (by decide), List.forall_mem_nil _, rfl⟩
      (.cons ⟨[' ', ' '], [' '], List.all_eq_true.mp (by decide), List.all_eq_true.mp (by decide), rfl⟩
        (.cons ⟨[], ['\r'], List.forall_mem_nil _, List.all_eq_true.mp (by decide), rfl⟩ .nil))
  have hreturned : Text.ReturnsAdded text other :=
    .keep _ (.keep _ (.keep _ (.keep _ (.keep _ (.keep _ (.feed (.refl _)))))))
  have hinserted : BlanksInserted 3 lines edited :=
    .keep _ (.blank rfl (.blank rfl (.keep _ (.keep _ (.blank rfl .nil)))))
  obtain ⟨hcomment, -, hdeclared, hblank, -⟩ := hblanks 3 edited hinserted
  exact ⟨⟨hpadded, (haround padded hpadded).1⟩, ⟨hreturned, hreturns text other hreturned 3 "a.js"⟩,
    hinserted, by decide, by decide, hcomment, hdeclared, hblank⟩

end Language

end LineCensus
