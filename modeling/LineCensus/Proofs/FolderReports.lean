import LineCensus.Proofs.FileReports
import LineCensus.Proofs.ScannedSources

/-! The report of a folder: its numbers are in the range of binary64 however many files are counted, since no file
that is read is too large for its share. -/
namespace LineCensus

structure Folder.InProportion (folder : Folder) : Prop where
  comment : 0 ≤ folder.comment ∧ folder.comment ≤ folder.totalLines
  code : 0 ≤ folder.code ∧ folder.code ≤ folder.totalLines
  declared : 0 ≤ folder.declared ∧ folder.declared ≤ 2 ^ 128 * folder.totalLines
  totalLines : folder.totalLines ≤ 2 ^ 128 * folder.totalFiles

namespace Folder.InProportion

variable {folder : Folder} {source : Source} {result : Except AnalysisError FileEntry}

private theorem empty : ({} : Folder).InProportion := by
  constructor <;> decide

private theorem settle (h : folder.InProportion)
    (hentry : ∀ entry, result = .ok entry → entry.stats.InProportion ∧ entry.stats.total ≤ 2 ^ 128) :
    (folder.settle source result).InProportion := by
  obtain ⟨hcomment, hcode, hdeclared, hlines⟩ := h
  cases result with
  | error e => exact ⟨hcomment, hcode, hdeclared, hlines⟩
  | ok entry =>
    obtain ⟨⟨-, _, _, _⟩, htotal⟩ := hentry entry rfl
    constructor <;> simp only [Folder.settle, add, Nat.cast_succ] <;> omega

private theorem settleAll (h : folder.InProportion) {settled : List (Source × Except AnalysisError FileEntry)}
    (hentries : ∀ source entry, (source, .ok entry) ∈ settled →
      entry.stats.InProportion ∧ entry.stats.total ≤ 2 ^ 128) :
    (folder.settleAll settled).InProportion := by
  induction settled generalizing folder with
  | nil => exact h
  | cons pair rest ih =>
    obtain ⟨source, result⟩ := pair
    rw [settleAll_cons]
    refine ih (h.settle ?_) fun other entry hmem => hentries other entry (List.mem_cons_of_mem _ hmem)
    rintro entry rfl
    exact hentries source entry (List.mem_cons_self ..)

end Folder.InProportion

private theorem Report.exists_overview {folder : Folder} (h : folder.InProportion) :
    ∃ text, overview folder = .ok text := by
  have hlines : 0 ≤ folder.totalLines := h.code.1.trans h.code.2
  obtain ⟨code, hcode⟩ := exists_percentage h.code.1 h.code.2
  obtain ⟨comment, hcomment⟩ := exists_percentage h.comment.1 h.comment.2
  obtain ⟨perLine, hperLine⟩ := exists_ratio h.declared.1 h.declared.2
  obtain ⟨average, haverage⟩ := exists_ratio hlines h.totalLines
  simp only [overview, Folder.codeDensity, Folder.commentRatio, Folder.variablesPerLine, Folder.averageLines, hcode,
    hcomment, hperLine, haverage]
  exact ⟨_, rfl⟩

namespace Analyzer

variable {a : Analyzer} {source : Source} {entry : FileEntry}

/-- A text that comes to an entry has a language, and no more lines than allowed. -/
theorem of_outcome_eq_ok {pace : Batch.Pace} {answers : Option Answers} {asked : Nat} {filename : String}
    {text : List Char} (h : (a.readText pace answers asked filename text).outcome = .ok entry) :
    ∃ language, a.registry.resolve? filename = some language ∧ text.count '\n' + 1 ≤ a.settings.maxLines := by
  refine (prepare_cases filename text).resolve_left ?_
  rintro ⟨e, he, -⟩
  rw [readText, he] at h
  cases h

/-- The entry of a source comes from the lines of its text. -/
theorem Alone.exists_readLines (h : a.Alone source (.ok entry)) :
    ∃ content language k, source.load = .text content ∧
      a.registry.resolve? source.displayName = some language ∧ entry.stats =
        .ofResults (readAll language.readLine .normal ((Text.splitAt '\n' content).take k)).1 := by
  obtain ⟨-, content, hload, hentry⟩ := alone_ok_iff.mp h
  obtain ⟨language, hlanguage, hfit⟩ := of_outcome_eq_ok hentry
  rw [outcome_readText .immediate 0 hlanguage hfit fun _ => rfl] at hentry
  cases hentry
  exact ⟨content, language, _, hload, hlanguage, rfl⟩

private theorem Alone.inProportion (h : a.Alone source (.ok entry)) (hregistry : a.registry = .builtin)
    (hlength : ∀ content, source.load = .text content → content.length ≤ maxFileBytes) :
    entry.stats.InProportion ∧ entry.stats.total ≤ 2 ^ 128 := by
  obtain ⟨content, language, k, hload, hlanguage, hstats⟩ := h.exists_readLines
  rw [hregistry] at hlanguage
  rw [hstats]
  exact Language.inProportion_stats (Registry.mem_of_resolve? hlanguage) (hlength content hload) k

end Analyzer

namespace Scanner

variable {scanner : Scanner} {disk : Node} {root : Path} {source : Source}

/-- A source that a scan finds and that loads a text is no larger than a file may be. -/
theorem length_text_le (h : source ∈ scanner.sources disk root) (hmax : scanner.maxBytes = maxFileBytes)
    {content : List Char} (hload : source.load = .text content) : content.length ≤ maxFileBytes := by
  obtain ⟨tree, found, -, rfl⟩ := exists_found_of_mem_sources h
  simp only [Scanner.source, hmax] at hload
  split at hload
  · rename_i text hread
    cases hload
    obtain ⟨_, -, hsize, hlength⟩ := of_readSource_eq_ok hread
    exact hlength.trans (Int.ofNat_le.mp hsize)
  · cases hload

end Scanner

/-- The report of a folder has all its numbers, whatever the sources of a scan come to. -/
theorem Analyzer.Settles.exists_overview {settings : Settings} {scanner : Scanner} {disk : Node} {root : Path}
    {folder : Folder} {settled : List (Source × Except AnalysisError FileEntry)}
    (h : ({ settings } : Analyzer).Settles (scanner.sources disk root) folder settled)
    (hmax : scanner.maxBytes = maxFileBytes) : ∃ text, Report.overview folder = .ok text := by
  rw [h.counted]
  refine Report.exists_overview (Folder.InProportion.empty.settleAll fun source entry hmem => ?_)
  have hsource : source ∈ scanner.sources disk root := h.sources ▸ List.mem_map_of_mem hmem
  exact (h.alone source (.ok entry) hmem).inProportion rfl fun _ => Scanner.length_text_le hsource hmax

end LineCensus
