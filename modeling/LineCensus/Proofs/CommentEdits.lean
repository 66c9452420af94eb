import LineCensus.Language.Basic
import LineCensus.Proofs.PlainReading
import LineCensus.Proofs.Trimming
import LineCensus.Tally.Stats
import Mathlib.Logic.Relation

/-! Edits inside comments: the text of a comment decides neither the kind of any line nor the number of
variables, for every builtin language. -/
namespace LineCensus

open Text (Solid trim)

namespace Delimiters

/-- The tokens are seen through trimming, and the line token cannot complete a block token that begins in
front of it. -/
structure Apart (d : Delimiters) : Prop where
  line_solid : Solid d.line
  start_solid : Solid d.blockStart
  line_head : d.line.head? ∉ d.blockStart.tail.map some

/-- A line that begins in a region becomes another one, and only the text of a comment changes: behind a
line token at its start, inside a block that it does not close, or behind code. -/
inductive CommentEdit (d : Delimiters) : Region → List Char → List Char → Prop where
  | line {old new : List Char} (hold : Text.startsWith d.line (trim old) = true)
    (hnew : Text.startsWith d.line (trim new) = true) : CommentEdit d .normal old new
  | block {old new : List Char} (hold : trim old ≠ []) (hnew : trim new ≠ [])
    (holdEnd : Text.occursIn d.blockEnd old = false) (hnewEnd : Text.occursIn d.blockEnd new = false) :
    CommentEdit d .block old new
  | behind {code old : List Char} (new : List Char) (hcode : (d.classify .normal code).1 = .code)
    (hfirst : ∀ i < code.length, ¬d.line <+: (code ++ d.line ++ old).drop i) :
    CommentEdit d .normal (code ++ d.line ++ old) (code ++ d.line ++ new)
  | dropped {code old : List Char} (hcode : (d.classify .normal code).1 = .code)
    (hfirst : ∀ i < code.length, ¬d.line <+: (code ++ d.line ++ old).drop i) :
    CommentEdit d .normal (code ++ d.line ++ old) code

variable {d : Delimiters} {line code tail : List Char}

private theorem classify_line (h : d.Apart) (hline : Text.startsWith d.line (trim line) = true) :
    d.classify .normal line = (.comment, .normal) := by
  have hne : trim line ≠ [] := by
    intro hnil
    rw [hnil, Text.startsWith_iff, List.prefix_nil] at hline
    exact h.line_solid.ne_nil hline
  simp only [classify, List.isEmpty_iff, hne, hline, if_true, if_false]

private theorem classify_block (hline : trim line ≠ []) (hend : Text.occursIn d.blockEnd line = false) :
    d.classify .block line = (.comment, .block) := by
  have htrim : Text.occursIn d.blockEnd (trim line) = false := by
    rw [← Bool.not_eq_true, Text.occursIn_iff] at hend ⊢
    exact fun hwithin => hend (hwithin.trans (Text.trim_infix line))
  simp only [classify, List.isEmpty_iff, hline, htrim, if_false, Bool.false_eq_true]

private theorem classify_of_no_token (hne : trim code ≠ []) (hline : ¬d.line <+: trim code)
    (hstart : ¬d.blockStart <+: trim code) : d.classify .normal code = (.code, .normal) := by
  rw [← Text.startsWith_eq_false_iff] at hline hstart
  simp only [classify, List.isEmpty_iff, hne, hline, hstart, if_false, Bool.false_eq_true]

private theorem no_token_of_classify (hcode : (d.classify .normal code).1 = .code) :
    trim code ≠ [] ∧ ¬d.line <+: trim code ∧ ¬d.blockStart <+: trim code := by
  simp only [classify] at hcode
  split at hcode
  · cases hcode
  · rename_i hne
    split at hcode
    · cases hcode
    · rename_i hline
      split at hcode
      · cases hcode
      · rename_i hstart
        rw [Text.startsWith_iff] at hline hstart
        exact ⟨by simpa using hne, hline, hstart⟩

/-- Code stays code when a comment follows it. -/
theorem classify_append (h : d.Apart) (hcode : (d.classify .normal code).1 = .code)
    (hfirst : ¬d.line <:+: code ++ d.line.dropLast) (tail : List Char) :
    d.classify .normal (code ++ d.line ++ tail) = (.code, .normal) := by
  obtain ⟨hne, -, hblock⟩ := no_token_of_classify hcode
  have hhead : code.dropWhile Text.isBlank ≠ [] := mt Text.trim_eq_nil_iff.mpr hne
  have htrim := Text.trim_append_token hne h.line_solid tail
  refine classify_of_no_token ?_ ?_ ?_
  · rw [htrim]
    simp [hhead]
  · intro hline
    rw [htrim] at hline
    have hwithin := (Text.prefix_dropLast hhead hline).isInfix
    exact hfirst (hwithin.trans (Text.dropWhile_append_suffix _ _).isInfix)
  · intro hstart
    obtain ⟨c, rest, hc⟩ := List.exists_cons_of_ne_nil h.line_solid.ne_nil
    have hapart : c ∉ d.blockStart.tail := by
      intro hmem
      exact h.line_head (hc ▸ List.mem_map_of_mem hmem)
    rw [htrim, hc, List.append_assoc, List.cons_append] at hstart
    exact hblock (h.start_solid.prefix_trimEnd (Text.prefix_of_prefix_append hhead hapart hstart))

end Delimiters

private theorem Declaration.Heuristic.count_congr (heuristic : Declaration.Heuristic) {a b : List Char}
    (h : trim a = trim b) : heuristic.count a = heuristic.count b := by
  simp only [Declaration.Heuristic.count, h]

namespace Language

variable {language : Language} {code tail : List Char}

private theorem apart_of_mem_builtin (h : language ∈ builtin) : language.delimiters.Apart := by
  have hslashes : slashes.Apart := ⟨⟨by decide, by decide⟩, ⟨by decide, by decide⟩, by decide⟩
  have hhashes : hashes.Apart := ⟨⟨by decide, by decide⟩, ⟨by decide, by decide⟩, by decide⟩
  simp only [builtin, List.mem_cons, List.not_mem_nil, or_false] at h
  rcases h with rfl | rfl | rfl | rfl | rfl | rfl | rfl
  · exact hslashes
  · exact hhashes
  all_goals exact hslashes

private theorem countVariables_of_code (hcode : (language.delimiters.classify .normal code).1 = .code)
    (hfirst : ¬language.delimiters.line <:+: code) :
    language.countVariables code = language.heuristic.count code := by
  obtain ⟨hne, hline, -⟩ := Delimiters.no_token_of_classify hcode
  have hwithin : ¬language.delimiters.line <:+: trim code := fun hwithin =>
    hfirst (hwithin.trans (Text.trim_infix code))
  rw [countVariables, Text.startsWith_eq_false_iff.mpr hline, List.isEmpty_eq_false_iff.mpr hne,
    Text.upTo_eq_self hwithin]
  exact language.heuristic.count_congr (Text.trim_trim code)

/-- A comment behind code is left out of the estimate, whatever it holds. -/
theorem countVariables_append (h : language.delimiters.Apart)
    (hcode : (language.delimiters.classify .normal code).1 = .code)
    (hfirst : ¬language.delimiters.line <:+: code ++ language.delimiters.line.dropLast)
    (tail : List Char) : language.countVariables (code ++ language.delimiters.line ++ tail) =
      language.heuristic.count code := by
  have happend := Delimiters.classify_append h hcode hfirst tail
  obtain ⟨hne, hline, -⟩ := Delimiters.no_token_of_classify (congrArg Prod.fst happend)
  have htrim := Text.trim_append_token (Delimiters.no_token_of_classify hcode).1 h.line_solid tail
  rw [htrim] at hne hline
  rw [countVariables, htrim, Text.startsWith_eq_false_iff.mpr hline, List.isEmpty_eq_false_iff.mpr hne,
    Text.upTo_append_token h.line_solid.ne_nil fun hwithin =>
      hfirst (hwithin.trans (Text.dropWhile_append_suffix _ _).isInfix)]
  exact language.heuristic.count_congr (Text.trim_dropWhile code)

/-- A line of code reads the same with a comment behind it. -/
theorem readLine_append (h : language.delimiters.Apart)
    (hcode : (language.delimiters.classify .normal code).1 = .code)
    (hfirst : ¬language.delimiters.line <:+: code ++ language.delimiters.line.dropLast)
    (tail : List Char) :
    language.readLine .normal (code ++ language.delimiters.line ++ tail) =
      language.readLine .normal code := by
  obtain ⟨hne, hline, hstart⟩ := Delimiters.no_token_of_classify hcode
  have hclassify := Delimiters.classify_of_no_token hne hline hstart
  have hwithin : ¬language.delimiters.line <:+: code := fun hwithin =>
    hfirst (hwithin.trans (List.prefix_append _ _).isInfix)
  simp only [readLine, Delimiters.classify_append h hcode hfirst, hclassify,
    countVariables_append h hcode hfirst, countVariables_of_code hcode hwithin]

/-- An edit inside a comment changes neither what is known of the line nor where the next one begins. -/
theorem readLine_commentEdit (h : language.delimiters.Apart) {region : Region} {old new : List Char}
    (hedit : language.delimiters.CommentEdit region old new) :
    language.readLine region new = language.readLine region old := by
  cases hedit with
  | line hold hnew =>
    simp only [readLine, Delimiters.classify_line h hold, Delimiters.classify_line h hnew,
      reduceCtorEq, if_false]
  | block hold hnew holdEnd hnewEnd =>
    simp only [readLine, Delimiters.classify_block hold holdEnd, Delimiters.classify_block hnew hnewEnd,
      reduceCtorEq, if_false]
  | behind new hcode hfirst =>
    have hwithin := Text.not_infix_of_first h.line_solid.ne_nil hfirst
    rw [readLine_append h hcode hwithin, readLine_append h hcode hwithin]
  | dropped hcode hfirst =>
    rw [readLine_append h hcode (Text.not_infix_of_first h.line_solid.ne_nil hfirst)]

/-- The lines of a file become others by one edit inside a comment. The region in which the edited line
begins is the one that the lines in front of it leave. -/
def FileEdit (language : Language) (lines edited : List (List Char)) : Prop :=
  ∃ before old new after, lines = before ++ old :: after ∧ edited = before ++ new :: after ∧
    language.delimiters.CommentEdit (readAll language.readLine .normal before).2 old new

private theorem readAll_fileEdit (h : language.delimiters.Apart) {lines edited : List (List Char)}
    (hedit : language.FileEdit lines edited) :
    readAll language.readLine .normal edited = readAll language.readLine .normal lines := by
  obtain ⟨before, old, new, after, rfl, rfl, hline⟩ := hedit
  simp only [readAll_append, readAll_cons, readLine_commentEdit h hline]

/-- Any number of edits inside comments leave the counters of a file in a builtin language as they are. -/
theorem stats_of_comment_edits {lines edited : List (List Char)} (hlanguage : language ∈ builtin)
    (hedits : Relation.ReflTransGen language.FileEdit lines edited) :
    Stats.ofResults (readAll language.readLine .normal edited).1 =
      Stats.ofResults (readAll language.readLine .normal lines).1 := by
  have h := apart_of_mem_builtin hlanguage
  induction hedits with
  | refl => rfl
  | tail _ hedit ih => rw [readAll_fileEdit h hedit, ih]

/-- One edit of each sort in a file of five lines: a comment behind code is dropped, a line comment and a
line inside a block are replaced. -/
theorem stats_of_three_comment_edits :
    let script :=
      ofExtensions "JavaScript" [".js", ".jsx", ".mjs", ".cjs"] slashes Declaration.script
    let lines := ["let a = 1 // one", "// note", "/* b", "let b = 2", "*/"].map (·.toList)
    let edited := ["let a = 1 ", "// let c = 3", "/* b", "text", "*/"].map (·.toList)
    script ∈ builtin ∧ Relation.ReflTransGen script.FileEdit lines edited ∧
      Stats.ofResults (readAll script.readLine .normal edited).1 =
        Stats.ofResults (readAll script.readLine .normal lines).1 := by
  intro script lines edited
  have hscript : script ∈ builtin := by simp [script, builtin]
  have hcode : (slashes.classify .normal "let a = 1 ".toList).1 = .code := by decide
  have hfirst : ∀ i < "let a = 1 ".toList.length,
      ¬slashes.line <+: ("let a = 1 ".toList ++ slashes.line ++ " one".toList).drop i := by decide
  have hdropped : script.FileEdit lines ("let a = 1 ".toList :: lines.drop 1) :=
    ⟨[], _, _, _, rfl, rfl, .dropped hcode hfirst⟩
  have hline : script.FileEdit ("let a = 1 ".toList :: lines.drop 1)
      ("let a = 1 ".toList :: "// let c = 3".toList :: lines.drop 2) :=
    ⟨["let a = 1 ".toList], _, _, _, rfl, rfl, .line (by decide) (by decide)⟩
  have hblock : script.FileEdit ("let a = 1 ".toList :: "// let c = 3".toList :: lines.drop 2) edited :=
    ⟨edited.take 3, _, _, ["*/".toList], rfl, rfl, .block (by decide) (by decide) (by decide) (by decide)⟩
  have hedits := ((Relation.ReflTransGen.single hdropped).tail hline).tail hblock
  exact ⟨hscript, hedits, stats_of_comment_edits hscript hedits⟩

end Language

end LineCensus
