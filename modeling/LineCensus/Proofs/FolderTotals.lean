import LineCensus.Proofs.LineTotals
import LineCensus.Tally.Folder
import Mathlib.Algebra.BigOperators.Group.List.Basic

/-! The counters of a folder after any history: sums over the files that were added, as a whole and language
by language, whatever files were left out in between. -/
namespace LineCensus

private theorem eraseDups_concat {α : Type} [DecidableEq α] (items : List α) (a : α) :
    (items ++ [a]).eraseDups = if a ∈ items then items.eraseDups else items.eraseDups ++ [a] := by
  rw [List.eraseDups_append]
  split
  · rename_i hmem
    simp [List.removeAll, hmem]
  · rename_i hnew
    simp [List.removeAll, hnew, List.eraseDups_cons]

theorem nodup_eraseDups {α : Type} [DecidableEq α] (items : List α) : items.eraseDups.Nodup := by
  induction items using List.reverseRecOn with
  | nil => exact List.nodup_nil
  | append_singleton items a ih =>
    rw [eraseDups_concat]
    split
    · exact ih
    · rename_i hnew
      rw [← List.concat_eq_append]
      exact ih.concat (mt List.mem_eraseDups.mp hnew)

attribute [ext] Stats

namespace Stats

instance : Zero Stats := ⟨{}⟩

instance : AddCommMonoid Stats where
  add_assoc a b c := by
    ext <;> exact Int.add_assoc ..
  zero_add a := by
    ext <;> exact Int.zero_add _
  add_zero a := by
    ext <;> exact Int.add_zero _
  add_comm a b := by
    ext <;> exact Int.add_comm ..
  nsmul := nsmulRec

private theorem balanced_add {a b : Stats} (ha : a.Balanced) (hb : b.Balanced) : (a + b).Balanced := by
  change a.blank + b.blank + (a.comment + b.comment) + (a.code + b.code) = a.total + b.total
  unfold Balanced at ha hb
  omega

private theorem balanced_sum {stats : List Stats} (h : ∀ s ∈ stats, s.Balanced) : stats.sum.Balanced :=
  List.sum_induction Balanced (fun _ _ => balanced_add) rfl h

end Stats

inductive FolderStep where
  | add (entry : FileEntry)
  | skip (filename reason : String)

def FolderStep.entry? : FolderStep → Option FileEntry
  | .add entry => some entry
  | .skip _ _ => none

def FolderStep.skipped? : FolderStep → Option SkippedFile
  | .add _ => none
  | .skip filename reason => some ⟨filename, reason⟩

namespace Folder

def apply (folder : Folder) : FolderStep → Folder
  | .add entry => folder.add entry
  | .skip filename reason => folder.skip filename reason

def ofSteps (steps : List FolderStep) : Folder :=
  steps.foldl apply {}

def totals (folder : Folder) : Stats where
  blank := folder.blank
  comment := folder.comment
  code := folder.code
  declared := folder.declared
  total := folder.totalLines

def languageStats (entries : List FileEntry) (name : String) : LanguageStats where
  stats := ((entries.filter (·.language = name)).map (·.stats)).sum
  files := entries.countP (·.language = name)

def languageTable (entries : List FileEntry) : List (String × LanguageStats) :=
  (entries.map (·.language)).eraseDups.map fun name => (name, languageStats entries name)

private theorem countLanguage_map {names : List String} (hnames : names.Nodup) (f : String → LanguageStats)
    (name : String) (stats : Stats) :
    countLanguage name stats (names.map fun n => (n, f n)) =
      (names.map fun n => (n, if n = name then (f n).count stats else f n)) ++
        if name ∈ names then [] else [(name, LanguageStats.count {} stats)] := by
  induction names with
  | nil => rfl
  | cons first rest ih =>
    rw [List.nodup_cons] at hnames
    by_cases hfirst : first = name
    · subst hfirst
      have hrest : (rest.map fun n => (n, if n = first then (f n).count stats else f n)) =
          rest.map fun n => (n, f n) := by
        apply List.map_congr_left
        intro n hn
        rw [if_neg (ne_of_mem_of_not_mem hn hnames.1)]
      simp [countLanguage, hrest]
    · simp [countLanguage, hfirst, Ne.symm hfirst, ih hnames.2]

private theorem languageStats_concat (entries : List FileEntry) (entry : FileEntry) (name : String) :
    languageStats (entries ++ [entry]) name =
      if name = entry.language then (languageStats entries name).count entry.stats
      else languageStats entries name := by
  by_cases hname : name = entry.language
  · subst hname
    simp [languageStats, LanguageStats.count]
  · simp [languageStats, hname, Ne.symm hname]

theorem languageStats_of_not_mem {entries : List FileEntry} {name : String}
    (h : name ∉ entries.map (·.language)) : languageStats entries name = {} := by
  have hnone : ∀ entry ∈ entries, ¬entry.language = name := by
    intro entry hentry hname
    exact h (List.mem_map.mpr ⟨entry, hentry, hname⟩)
  have hfilter : entries.filter (·.language = name) = [] := by
    simpa [List.filter_eq_nil_iff] using hnone
  have hcount : entries.countP (·.language = name) = 0 := by
    simpa [List.countP_eq_zero] using hnone
  rw [languageStats, hfilter, hcount]
  rfl

/-- One more entry counts for its language as one more line of the table would. -/
theorem languageTable_concat (entries : List FileEntry) (entry : FileEntry) :
    languageTable (entries ++ [entry]) =
      countLanguage entry.language entry.stats (languageTable entries) := by
  have hnames := nodup_eraseDups (entries.map (·.language))
  unfold languageTable
  rw [countLanguage_map hnames, List.map_append, List.map_singleton, eraseDups_concat]
  simp only [languageStats_concat, List.mem_eraseDups]
  split
  · rw [List.append_nil]
  · rename_i hnew
    rw [List.map_append, List.map_singleton, if_pos rfl, languageStats_of_not_mem hnew]

private theorem sum_stats_countLanguage (name : String) (stats : Stats) (table : List (String × LanguageStats)) :
    ((countLanguage name stats table).map (·.2.stats)).sum = (table.map (·.2.stats)).sum + stats := by
  induction table with
  | nil => exact add_zero ((0 : Stats) + stats)
  | cons first rest ih =>
    rw [countLanguage]
    split
    · simp only [List.map_cons, List.sum_cons, LanguageStats.count]
      exact add_right_comm _ _ _
    · rw [List.map_cons, List.sum_cons, ih, List.map_cons, List.sum_cons, add_assoc]

private theorem sum_files_countLanguage (name : String) (stats : Stats) (table : List (String × LanguageStats)) :
    ((countLanguage name stats table).map (·.2.files)).sum = (table.map (·.2.files)).sum + 1 := by
  induction table with
  | nil => rfl
  | cons first rest ih =>
    rw [countLanguage]
    split
    · simp only [List.map_cons, List.sum_cons, LanguageStats.count]
      omega
    · simp only [List.map_cons, List.sum_cons, ih]
      omega

/-- What a folder holds of the entries added and the files left out, in their order. -/
structure Records (folder : Folder) (entries : List FileEntry) (skipped : List SkippedFile) : Prop where
  perFile : folder.perFile.toList = entries
  totalFiles : folder.totalFiles = entries.length
  totals : folder.totals = (entries.map (·.stats)).sum
  perLanguage : folder.perLanguage = languageTable entries
  sum_stats : (folder.perLanguage.map (·.2.stats)).sum = folder.totals
  sum_files : (folder.perLanguage.map (·.2.files)).sum = folder.totalFiles
  skipped : folder.skipped.toList = skipped

namespace Records

variable {folder : Folder} {entries : List FileEntry} {skipped : List SkippedFile}

private theorem add (h : folder.Records entries skipped) (entry : FileEntry) :
    (folder.add entry).Records (entries ++ [entry]) skipped where
  perFile := by
    rw [← h.perFile]
    exact Array.toList_push
  totalFiles := by
    rw [List.length_append, ← h.totalFiles]
    rfl
  totals := by
    rw [List.map_append, List.sum_append, ← h.totals, List.map_singleton, List.sum_singleton]
    rfl
  perLanguage := by
    rw [languageTable_concat, ← h.perLanguage]
    rfl
  sum_stats := (sum_stats_countLanguage ..).trans (congrArg (· + entry.stats) h.sum_stats)
  sum_files := (sum_files_countLanguage ..).trans (congrArg (· + 1) h.sum_files)
  skipped := h.skipped

private theorem skip (h : folder.Records entries skipped) (filename reason : String) :
    (folder.skip filename reason).Records entries (skipped ++ [⟨filename, reason⟩]) where
  perFile := h.perFile
  totalFiles := h.totalFiles
  totals := h.totals
  perLanguage := h.perLanguage
  sum_stats := h.sum_stats
  sum_files := h.sum_files
  skipped := by
    rw [← h.skipped]
    exact Array.toList_push

end Records

private theorem ofSteps_concat (steps : List FolderStep) (step : FolderStep) :
    ofSteps (steps ++ [step]) = (ofSteps steps).apply step :=
  List.foldl_concat ..

theorem records_ofSteps (steps : List FolderStep) :
    (ofSteps steps).Records (steps.filterMap FolderStep.entry?)
      (steps.filterMap FolderStep.skipped?) := by
  induction steps using List.reverseRecOn with
  | nil => exact ⟨rfl, rfl, rfl, rfl, rfl, rfl, rfl⟩
  | append_singleton steps step ih =>
    rw [ofSteps_concat, List.filterMap_append, List.filterMap_append]
    cases step with
    | add entry =>
      have hskipped : [FolderStep.add entry].filterMap FolderStep.skipped? = [] := rfl
      rw [hskipped, List.append_nil]
      exact ih.add entry
    | skip filename reason =>
      have hentries : [FolderStep.skip filename reason].filterMap FolderStep.entry? = [] := rfl
      rw [hentries, List.append_nil]
      exact ih.skip filename reason

private theorem ofSteps_eq_ofEntries (steps : List FolderStep) :
    { ofSteps steps with skipped := #[] } = ofEntries (steps.filterMap FolderStep.entry?) := by
  induction steps using List.reverseRecOn with
  | nil => rfl
  | append_singleton steps step ih =>
    rw [ofSteps_concat, List.filterMap_append, ofEntries, List.foldl_append, ← ofEntries, ← ih]
    cases step <;> rfl

/-- After any history of added and skipped files the counters of a folder are the sums over the entries
added, and its table has the languages of these entries in the order of their first one, each with the sums
and the number of its own entries. Files that were left out stand in their list and change nothing else. If
the lines of every entry are all of one of the three kinds, so are those of the folder. -/
theorem ofSteps_sums_entries (steps : List FolderStep) :
    let folder := ofSteps steps
    let entries := steps.filterMap FolderStep.entry?
    folder.Records entries (steps.filterMap FolderStep.skipped?) ∧
      { folder with skipped := #[] } = ofEntries entries ∧
      ((∀ entry ∈ entries, entry.stats.Balanced) →
        folder.blank + folder.comment + folder.code = folder.totalLines) := by
  intro folder entries
  have hrecords : folder.Records entries _ := records_ofSteps steps
  refine ⟨hrecords, ofSteps_eq_ofEntries steps, fun hbalanced => ?_⟩
  have htotals : folder.totals.Balanced := by
    rw [hrecords.totals]
    exact Stats.balanced_sum (by simpa using hbalanced)
  exact htotals

end Folder

end LineCensus
