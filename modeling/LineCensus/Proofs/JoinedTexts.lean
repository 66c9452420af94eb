import LineCensus.Proofs.LineLayout
import LineCensus.Proofs.LineTotals

/-! Two texts joined by a line feed: the lines of the whole are the lines of its parts, and so are its
counters as long as no block comment reaches over the seam. -/
namespace LineCensus

open Text (trim)

namespace Stats

private theorem count_add (a b : Stats) (result : LineResult) : (a.add b).count result = a.add (b.count result) := by
  cases hkind : result.kind <;> simp only [count, add, hkind, Int.add_assoc]

private theorem foldl_add (a b : Stats) (results : List LineResult) :
    results.foldl count (a.add b) = a.add (results.foldl count b) := by
  induction results generalizing b with
  | nil => rfl
  | cons result rest ih => rw [List.foldl_cons, List.foldl_cons, count_add, ih]

theorem ofResults_append (first second : List LineResult) :
    ofResults (first ++ second) = (ofResults first).add (ofResults second) := by
  have hzero (stats : Stats) : stats.add {} = stats := by
    simp only [add, Int.add_zero]
  rw [ofResults, List.foldl_append, ofResults, ofResults, ← foldl_add, hzero]

private theorem blank_count (stats : Stats) (result : LineResult) :
    (stats.count result).blank = stats.blank + if result.kind = .blank then 1 else 0 := by
  cases hkind : result.kind <;> simp [count, hkind]

end Stats

/-- Whether a line is blank does not depend on the region in which it begins. -/
theorem Delimiters.classify_fst_eq_blank_iff (d : Delimiters) (region : Region) (line : List Char) :
    (d.classify region line).1 = .blank ↔ trim line = [] := by
  rw [← List.isEmpty_iff]
  cases hline : (trim line).isEmpty with
  | true => simp [classify, hline]
  | false =>
    cases region with
    | block => simp [classify, hline]
    | normal =>
      simp only [classify, hline, Bool.false_eq_true, if_false, iff_false]
      split
      · exact LineKind.noConfusion
      · split <;> exact LineKind.noConfusion

namespace Language

variable (language : Language)

private theorem kind_readLine_blank_iff (region : Region) (line : List Char) :
    (language.readLine region line).1.kind = .blank ↔ trim line = [] :=
  language.delimiters.classify_fst_eq_blank_iff region line

private theorem blank_foldl_readAll (stats : Stats) (region : Region) (lines : List (List Char)) :
    ((readAll language.readLine region lines).1.foldl Stats.count stats).blank =
      stats.blank + lines.countP fun line => trim line = [] := by
  induction lines generalizing stats region with
  | nil => exact (Int.add_zero _).symm
  | cons line rest ih =>
    simp only [readAll_cons, List.foldl_cons, ih, Stats.blank_count, kind_readLine_blank_iff,
      List.countP_cons, decide_eq_true_eq, Int.natCast_add]
    split <;> omega

private theorem blank_readAll (region : Region) (lines : List (List Char)) :
    (Stats.ofResults (readAll language.readLine region lines).1).blank =
      lines.countP fun line => trim line = [] := by
  rw [Stats.ofResults, blank_foldl_readAll]
  exact Int.zero_add _

def readText (text : List Char) : List LineResult × Region :=
  readAll language.readLine .normal (Text.splitAt '\n' text)

def statsOf (text : List Char) : Stats :=
  Stats.ofResults (language.readText text).1

private theorem textStats_eq_ok {text : List Char} {maxLines : Int} (filename : String)
    (h : text.count '\n' + 1 ≤ maxLines) :
    language.textStats maxLines filename text = .ok (language.statsOf text) := by
  have hfit : ¬maxLines < ((Text.splitAt '\n' text).length : Int) := by
    rw [Text.length_splitAt]
    omega
  simp only [textStats, splitLines, if_neg hfit]
  rfl

/-- The lines behind the seam are read in the region that the lines in front of it leave. -/
theorem readText_joined (first second : List Char) :
    let behind := readAll language.readLine (language.readText first).2 (Text.splitAt '\n' second)
    language.readText (first ++ '\n' :: second) = ((language.readText first).1 ++ behind.1, behind.2) := by
  intro behind
  rw [readText, Text.splitAt_append_cons, readAll_append]
  rfl

/-- Two texts joined by a line feed count as the two of them together, each read on its own, if no block
is open at the end of the first; blank lines and all lines are added up even if one is. The limit on the
number of lines lets the parts pass if it lets the whole pass. -/
theorem statsOf_joined (language : Language) (first second : List Char) :
    let whole := first ++ '\n' :: second
    ((language.readText first).2 = .normal →
      language.statsOf whole = (language.statsOf first).add (language.statsOf second) ∧
        (language.readText whole).2 = (language.readText second).2) ∧
    (language.statsOf whole).blank = (language.statsOf first).blank + (language.statsOf second).blank ∧
    (language.statsOf whole).total = (language.statsOf first).total + (language.statsOf second).total ∧
    ∀ maxLines filename, whole.count '\n' + 1 ≤ maxLines →
      ∀ text ∈ [whole, first, second],
        language.textStats maxLines filename text = .ok (language.statsOf text) := by
  intro whole
  have hread := language.readText_joined first second
  refine ⟨fun hnormal => ?_, ?_, ?_, fun maxLines filename hfit text htext => ?_⟩
  · rw [hnormal] at hread
    constructor
    · rw [statsOf, hread, Stats.ofResults_append]
      rfl
    · rw [hread]
      rfl
  · simp only [whole, statsOf, readText, blank_readAll, Text.splitAt_append_cons, List.countP_append,
      Int.natCast_add]
  · simp only [whole, statsOf, readText, Stats.total_ofResults, length_readAll, Text.splitAt_append_cons,
      List.length_append, Int.natCast_add]
  · have hcount : whole.count '\n' = first.count '\n' + (second.count '\n' + 1) := by
      rw [List.count_append, List.count_cons_self]
    refine language.textStats_eq_ok filename ?_
    simp only [List.mem_cons, List.not_mem_nil, or_false] at htext
    rcases htext with rfl | rfl | rfl <;> omega

/-- A first text that closes its block on its last line, and a second one that opens a block. -/
theorem statsOf_joined_blocks :
    let script := ofExtensions "JavaScript" [".js"] slashes Declaration.script
    let first := "/* one\n\ntwo */".toList
    let second := "let x = 1\n/* three".toList
    (script.readText first).2 = .normal ∧ (first ++ '\n' :: second).count '\n' + 1 ≤ 5 ∧
      script.statsOf (first ++ '\n' :: second) = (script.statsOf first).add (script.statsOf second) ∧
      (script.statsOf second).declared = 1 ∧
      script.textStats 5 "a.js" (first ++ '\n' :: second) =
        .ok (script.statsOf (first ++ '\n' :: second)) := by
  intro script first second
  have hnormal : (script.readText first).2 = .normal := by decide
  have hfit : (first ++ '\n' :: second).count '\n' + 1 ≤ 5 := by decide
  obtain ⟨hstats, -, -, haccepted⟩ := script.statsOf_joined first second
  exact ⟨hnormal, hfit, (hstats hnormal).1, by decide,
    haccepted 5 "a.js" (by exact_mod_cast hfit) _ (List.mem_cons_self ..)⟩

end Language

end LineCensus
