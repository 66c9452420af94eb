import LineCensus.Proofs.CommandRuns

/-! The token counts of a run over a folder. A file is counted when it is loaded, before its lines are: one with too
many lines has a count although it is left out. -/
namespace LineCensus

namespace Analyzer

variable {a : Analyzer} {sources : List Source} {source : Source} {result : Except AnalysisError FileEntry}
  {folder : Folder} {settled : List (Source × Except AnalysisError FileEntry)}

end Analyzer

/-- Where the preferred encoding has no tokens for the empty text, that text is no exception. -/
theorem Tokens.Session.count_of_preferred {supply : Supply} {encoding : Encoder}
    (h : supply preferred = some encoding) (hempty : encoding [] = some 0) (session : Session) {text : List Char}
    {n : Nat} (hn : encoding text = some n) : (session.count supply text).1 = n := by
  cases text with
  | nil => exact Option.some.inj (hempty.symm.trans hn)
  | cons c rest =>
    have hload : (session.load supply preferred).1 = some encoding := by
      rw [load]
      split
      · exact h
      · simp only [h]
    rw [count, encoder]
    generalize session.load supply preferred = loaded at hload
    obtain ⟨_, session⟩ := loaded
    obtain rfl := hload
    exact congrArg (Option.getD · _) hn

theorem Tokens.Session.count_words {supply : Supply} (h : supply preferred = some wordEncoder) (session : Session)
    (text : List Char) : (session.count supply text).1 = (Text.words text).length :=
  count_of_preferred h rfl session rfl

example : (Tokens.Session.count (fun _ => some Tokens.wordEncoder) {} "x = y\n".toList).1 = 3 := by
  decide

namespace Command

section Names

variable {a : Analyzer} {sources : List Source} (hnodup : (sources.map (·.displayName)).Nodup)
include hnodup

end Names

section Run

variable {s : Surroundings} {options : Options} {settings : Settings} {tree : Node} {scanner : Scanner}

end Run

end Command

end LineCensus
