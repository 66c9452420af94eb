import LineCensus.Proofs.FolderTotals
import LineCensus.Proofs.JoinedTexts
import Mathlib.Algebra.BigOperators.Group.List.Basic

/-! Entries in another order, and entries in two parts: the counters of the whole folder and the records of its
languages are those of the parts together, in whatever order the entries came. -/
namespace LineCensus

namespace LanguageStats

def add (a b : LanguageStats) : LanguageStats where
  stats := a.stats + b.stats
  files := a.files + b.files

instance : Add LanguageStats := ⟨add⟩

private theorem add_empty (l : LanguageStats) : l + {} = l :=
  congrArg (LanguageStats.mk · l.files) (add_zero l.stats)

private theorem empty_add (l : LanguageStats) : {} + l = l := by
  change LanguageStats.mk (0 + l.stats) (0 + l.files) = l
  rw [zero_add, zero_add]

end LanguageStats

namespace Folder

def record? (folder : Folder) (name : String) : Option LanguageStats :=
  folder.perLanguage.lookup name

/-- The folders have the same counters and the same records, each language once; only the order may differ. -/
structure SameCounts (folder other : Folder) : Prop where
  totalFiles : folder.totalFiles = other.totalFiles
  totals : folder.totals = other.totals
  record : ∀ name, folder.record? name = other.record? name
  perLanguage : folder.perLanguage.Perm other.perLanguage
  distinct : (folder.perLanguage.map (·.1)).Nodup
  languages : folder.languages.Perm other.languages

/-- The folder has the counters of two others together. A language that only one of them knows has its record
there. -/
structure Merges (folder first second : Folder) : Prop where
  totalFiles : folder.totalFiles = first.totalFiles + second.totalFiles
  totals : folder.totals = first.totals + second.totals
  record : ∀ name, folder.record? name = Option.merge (· + ·) (first.record? name) (second.record? name)

variable {entries other first second : List FileEntry} {name : String}

private theorem records_ofEntries (entries : List FileEntry) : (ofEntries entries).Records entries [] := by
  have hsteps : ofSteps (entries.map .add) = ofEntries entries := List.foldl_map ..
  have hentries : (entries.map .add).filterMap FolderStep.entry? = entries := by
    rw [List.filterMap_map]
    exact List.filterMap_some
  have hskipped : (entries.map .add).filterMap FolderStep.skipped? = [] := by
    rw [List.filterMap_map, List.filterMap_eq_nil_iff]
    exact fun _ _ => rfl
  have h := records_ofSteps (entries.map .add)
  rwa [hsteps, hentries, hskipped] at h

private theorem record?_ofEntries (entries : List FileEntry) (name : String) :
    (ofEntries entries).record? name =
      if name ∈ entries.map (·.language) then some (languageStats entries name) else none := by
  rw [record?, (records_ofEntries entries).perLanguage, languageTable]
  split
  · rename_i hmem
    exact List.lookup_graph _ (List.mem_eraseDups.mpr hmem)
  · rename_i hnew
    rw [List.lookup_eq_none_iff]
    rintro ⟨known, l⟩ hrow
    obtain ⟨_, hknown, heq⟩ := List.mem_map.mp hrow
    cases heq
    simpa using ne_of_mem_of_not_mem (List.mem_eraseDups.mp hknown) hnew |>.symm

private theorem languageStats_perm (h : entries.Perm other) (name : String) :
    languageStats entries name = languageStats other name := by
  have hstats := ((h.filter (·.language = name)).map (·.stats)).sum_eq
  have hfiles := h.countP_eq (·.language = name)
  rw [languageStats, languageStats, hstats, hfiles]

private theorem languageStats_append (first second : List FileEntry) (name : String) :
    languageStats (first ++ second) name = languageStats first name + languageStats second name := by
  simp only [languageStats, List.filter_append, List.map_append, List.sum_append, List.countP_append]
  rfl

private theorem distinct_ofEntries (entries : List FileEntry) : ((ofEntries entries).perLanguage.map (·.1)).Nodup := by
  rw [(records_ofEntries entries).perLanguage, languageTable, List.map_map]
  exact (nodup_eraseDups _).map fun _ _ h => h

/-- The table of the languages has the same rows in whatever order the entries come. -/
theorem perLanguage_perm (h : entries.Perm other) :
    (ofEntries entries).perLanguage.Perm (ofEntries other).perLanguage := by
  have hnames : (entries.map (·.language)).eraseDups.Perm (other.map (·.language)).eraseDups := by
    refine (List.perm_ext_iff_of_nodup (nodup_eraseDups _) (nodup_eraseDups _)).mpr fun name => ?_
    rw [List.mem_eraseDups, List.mem_eraseDups, (h.map (·.language)).mem_iff]
  rw [(records_ofEntries entries).perLanguage, (records_ofEntries other).perLanguage, languageTable,
    languageTable]
  simp only [languageStats_perm h]
  exact hnames.map _

private theorem sameCounts_of_perm (h : entries.Perm other) : (ofEntries entries).SameCounts (ofEntries other) where
  totalFiles := by
    rw [(records_ofEntries entries).totalFiles, (records_ofEntries other).totalFiles, h.length_eq]
  totals := by
    rw [(records_ofEntries entries).totals, (records_ofEntries other).totals, (h.map (·.stats)).sum_eq]
  record name := by
    simp only [record?_ofEntries, languageStats_perm h, (h.map (·.language)).mem_iff]
  perLanguage := perLanguage_perm h
  distinct := distinct_ofEntries entries
  languages := (perLanguage_perm h).map _

private theorem merges_append (first second : List FileEntry) :
    (ofEntries (first ++ second)).Merges (ofEntries first) (ofEntries second) where
  totalFiles := by
    simp only [(records_ofEntries _).totalFiles, List.length_append]
  totals := by
    simp only [(records_ofEntries _).totals, List.map_append, List.sum_append]
  record name := by
    simp only [record?_ofEntries, languageStats_append, List.map_append, List.mem_append]
    by_cases hfirst : name ∈ first.map (·.language) <;> by_cases hsecond : name ∈ second.map (·.language)
    · simp [hfirst, hsecond]
    · simp [hfirst, hsecond, languageStats_of_not_mem hsecond, LanguageStats.add_empty]
    · simp [hfirst, hsecond, languageStats_of_not_mem hfirst, LanguageStats.empty_add]
    · simp [hfirst, hsecond]

private theorem SameCounts.merges {folder whole first second : Folder} (h : folder.SameCounts whole)
    (hwhole : whole.Merges first second) : folder.Merges first second where
  totalFiles := h.totalFiles.trans hwhole.totalFiles
  totals := h.totals.trans hwhole.totals
  record name := (h.record name).trans (hwhole.record name)

/-- The counters of a folder do not depend on the order of its entries: the totals and, language by language, the
records are the same, and only the list of the entries keeps the order. If the entries are dealt out to two folders
in any way, the totals and the records of the two add up to those of the whole. Lines that follow each other are
counted like the two stretches added up. -/
theorem ofEntries_in_any_order (entries : List FileEntry) :
    (∀ other, entries.Perm other →
      (ofEntries other).SameCounts (ofEntries entries) ∧
        (ofEntries entries).perFile.toList = entries ∧ (ofEntries other).perFile.toList = other) ∧
    (∀ first second, entries.Perm (first ++ second) →
      (ofEntries entries).Merges (ofEntries first) (ofEntries second)) ∧
    ∀ first second : List LineResult,
      Stats.ofResults (first ++ second) = (Stats.ofResults first).add (Stats.ofResults second) := by
  refine ⟨fun other horder => ⟨sameCounts_of_perm horder.symm, ?_, ?_⟩, fun first second hparts => ?_,
    Stats.ofResults_append⟩
  · exact (records_ofEntries entries).perFile
  · exact (records_ofEntries other).perFile
  · exact (sameCounts_of_perm hparts).merges (merges_append first second)

/-- Three files in two languages, the last one first, and dealt out so that one language is in both parts. -/
theorem ofEntries_in_any_order_of_three :
    let a : FileEntry := ⟨"a.py", "Python", ⟨0, 1, 2, 1, 3⟩⟩
    let b : FileEntry := ⟨"b.c", "C", ⟨1, 0, 1, 0, 2⟩⟩
    let c : FileEntry := ⟨"c.py", "Python", ⟨0, 0, 4, 2, 4⟩⟩
    [a, b, c].Perm [c, a, b] ∧ [a, b, c].Perm ([b, c] ++ [a]) ∧
      (ofEntries [c, a, b]).totals = (ofEntries [a, b, c]).totals ∧
      (ofEntries [a, b, c]).totals = (ofEntries [b, c]).totals + (ofEntries [a]).totals ∧
      (ofEntries [a, b, c]).record? "Python" = some ⟨⟨0, 1, 6, 3, 7⟩, 2⟩ ∧
      (ofEntries [a, b, c]).record? "C" = some ⟨⟨1, 0, 1, 0, 2⟩, 1⟩ := by
  intro a b c
  have horder : [a, b, c].Perm [c, a, b] := by decide
  have hparts : [a, b, c].Perm ([b, c] ++ [a]) := by decide
  obtain ⟨hany, hdealt, -⟩ := ofEntries_in_any_order [a, b, c]
  have hmerges := hdealt [b, c] [a] hparts
  exact ⟨horder, hparts, (hany _ horder).1.totals, hmerges.totals, hmerges.record "Python",
    hmerges.record "C"⟩

end Folder
end LineCensus
