import LineCensus.Proofs.FolderRun
import LineCensus.Proofs.ScannedFiles
import LineCensus.Proofs.TreeNames

/-! The sources of a scan, each under a name of its own, and what a run over them makes of each. -/
namespace LineCensus

/-- A source whose name has a language, the same one under the name that reports show, and that loads a text or
has an error of its own. -/
structure Analyzer.Handles (a : Analyzer) (source : Source) : Prop where
  supported : a.registry.isSupported source.name = true
  shown : a.registry.resolve? source.displayName = a.registry.resolve? source.name
  ordinary : source.load.isOrdinary = true

def Analyzer.fits (a : Analyzer) (source : Source) : Bool :=
  match source.load with
  | .text text => text.count '\n' + 1 ≤ a.settings.maxLines
  | _ => false

namespace Scanner

variable {s : Scanner} {disk tree : Node} {root : Path} {found : Found}

theorem displayName_source (found : Found) :
    (s.source disk root found).displayName = Path.toString { parts := found.path } := by
  simp [Source.displayName, source, Path.toString_ne_empty]

private theorem isRequest_of_readSource {path : Path} {displayName : String} {maxBytes : Int} {e : AnalysisError}
    (h : readSource disk path displayName maxBytes = .error e) : e.isRequest = false := by
  rw [readSource] at h
  split at h
  · cases h
    rfl
  · split at h
    · cases h
      rfl
    · split at h
      · cases h
        rfl
      · cases h

private theorem isOrdinary_source (found : Found) : (s.source disk root found).load.isOrdinary = true := by
  simp only [source]
  split
  · rfl
  · rename_i e hread
    rw [Load.isOrdinary, isRequest_of_readSource hread]
    rfl

theorem exists_found_of_mem_sources {source : Source} (h : source ∈ s.sources disk root) :
    ∃ tree, ∃ found ∈ s.files tree, s.source disk root found = source := by
  rw [sources] at h
  split at h
  · cases h
  · rename_i tree _
    exact ⟨tree, List.mem_map.mp h⟩

theorem supported_of_mem_sources {source : Source} (h : source ∈ s.sources disk root) :
    s.registry.isSupported source.name = true := by
  obtain ⟨tree, found, hfound, rfl⟩ := exists_found_of_mem_sources h
  have hkeeps := List.of_mem_filter hfound
  rw [keeps, wants] at hkeeps
  simp only [Bool.and_eq_true] at hkeeps
  exact hkeeps.1.2.1

theorem ordinary_of_mem_sources {source : Source} (h : source ∈ s.sources disk root) :
    source.load.isOrdinary = true := by
  obtain ⟨tree, found, -, rfl⟩ := exists_found_of_mem_sources h
  exact isOrdinary_source found

theorem Selects.relative (h : s.Selects tree found) (hnames : tree.Named) : Path.Relative { parts := found.path } :=
  hnames.relative_of_find? h.listed

theorem Selects.handles {a : Analyzer} (h : s.Selects tree found) (hnames : tree.Named)
    (hregistry : a.registry = s.registry) : a.Handles (s.source disk root found) where
  supported := by
    have hwanted := h.wanted
    rw [wants, Bool.and_eq_true] at hwanted
    rw [hregistry, source, Path.name, List.getLast?_eq_some_getLast h.inside]
    exact hwanted.1
  shown := by
    rw [displayName_source, Registry.resolve?, (h.relative hnames).extensionOf?_toString h.inside]
    rfl
  ordinary := isOrdinary_source found

theorem mem_sources (h : tree.Distinct) (hroot : disk.find? root.parts = some tree) {source : Source} :
    source ∈ s.sources disk root ↔ ∃ found, s.Selects tree found ∧ s.source disk root found = source := by
  rw [sources, hroot, List.mem_map]
  exact exists_congr fun found => and_congr_left fun _ => mem_files h

theorem handles_sources {a : Analyzer} (h : tree.Distinct) (hnames : tree.Named)
    (hroot : disk.find? root.parts = some tree) (hregistry : a.registry = s.registry) :
    ∀ source ∈ s.sources disk root, a.Handles source := by
  intro source hmem
  obtain ⟨found, hselects, rfl⟩ := (mem_sources h hroot).mp hmem
  exact hselects.handles hnames hregistry

/-- No two files of a tree have the same name in reports. -/
theorem nodup_displayName (h : tree.Distinct) (hnames : tree.Named) (hroot : disk.find? root.parts = some tree) :
    ((s.sources disk root).map (·.displayName)).Nodup := by
  rw [sources, hroot, List.map_map]
  refine List.Nodup.map_on ?_ (nodup_path_files h).of_map
  intro f hf g hg heq
  have hf := (mem_files h).mp hf
  have hg := (mem_files h).mp hg
  rw [Function.comp_apply, Function.comp_apply, displayName_source, displayName_source] at heq
  have hpath : f.path = g.path :=
    congrArg Path.parts ((hf.relative hnames).toString_inj (hg.relative hnames) hf.inside hg.inside heq)
  have hnode : f.node = g.node := Option.some.inj (by rw [← hf.listed, hpath, hg.listed])
  cases f
  cases g
  simp_all

end Scanner

namespace Analyzer

variable {a : Analyzer} {sources : List Source} {source : Source} {result : Except AnalysisError FileEntry}
  {text : List Char} {filename : String}

/-- An entry has the name of its source in reports, and a source has one exactly if it loads a text that is not too
long. -/
theorem Alone.filename_eq (h : a.Alone source result) (hhandles : a.Handles source) :
    result.toOption.map (·.filename) = if a.fits source then some source.displayName else none := by
  cases hload : source.load with
  | fault =>
    have hordinary := hhandles.ordinary
    simp [hload, Load.isOrdinary] at hordinary
  | unreadable reason =>
    rw [h.unique (.unreadable hhandles.supported hload)]
    simp [fits, hload, Except.toOption]
  | refused e =>
    rw [h.unique (.refused hhandles.supported hload)]
    simp [fits, hload, Except.toOption]
  | text content =>
    rw [h.unique (.text hhandles.supported hload)]
    obtain ⟨language, hlanguage⟩ := Option.isSome_iff_exists.mp hhandles.supported
    rw [← hhandles.shown] at hlanguage
    by_cases hfit : content.count '\n' + 1 ≤ a.settings.maxLines
    · rw [outcome_readText .immediate 0 hlanguage hfit fun _ => rfl]
      simp [fits, hload, hfit, Except.toOption]
    · rw [readText_of_tooLong .immediate none 0 (by simp [Registry.isSupported, hlanguage]) (Nat.lt_of_not_le hfit)]
      simp [fits, hload, hfit, Except.toOption]

private theorem Alone.filename_of_ok {entry : FileEntry} (h : a.Alone source (.ok entry))
    (hhandles : a.Handles source) :
    entry.filename = source.displayName := by
  have hfilename := h.filename_eq hhandles
  split at hfilename
  · exact Option.some.inj hfilename
  · cases hfilename

/-- A run over sources comes to a folder, in which each source stands with what it comes to alone, and loads all of
them. -/
structure Settles (a : Analyzer) (sources : List Source) (folder : Folder)
    (settled : List (Source × Except AnalysisError FileEntry)) : Prop where
  outcome : (a.readFolder none sources).outcome = .ok folder
  loaded : (a.readFolder none sources).loaded = sources
  sources : settled.map (·.1) = sources
  alone : ∀ source result, (source, result) ∈ settled → a.Alone source result
  counted : folder = ({} : Folder).settleAll settled

theorem exists_settles (hsupported : ∀ source ∈ sources, a.registry.isSupported source.name = true)
    (hordinary : ∀ source ∈ sources, source.load.isOrdinary = true) :
    ∃ folder settled, a.Settles sources folder settled := by
  have hgo (n : Nat) : Batch.stopsAt .cooperative none n = false := rfl
  obtain ⟨results, halone, hsources, houtcome, -, hloaded⟩ := exists_readFolder (a := a) hgo hordinary
  refine ⟨_, sources.zip results, houtcome, ?_, hsources, fun _ _ hmem => List.forall₂_zip halone hmem, rfl⟩
  rw [hloaded]
  exact List.filter_eq_self.mpr hsupported

namespace Settles

variable {folder : Folder} {settled : List (Source × Except AnalysisError FileEntry)}

private theorem perFile (h : a.Settles sources folder settled) :
    folder.perFile.toList = settled.filterMap (·.2.toOption) := by
  rw [h.counted]
  exact Folder.perFile_settleAll {} settled

private theorem skipped (h : a.Settles sources folder settled) :
    folder.skipped.toList = settled.filterMap fun (source, result) => source.skipped? result := by
  rw [h.counted]
  exact Folder.skipped_settleAll {} settled

private theorem exists_result (h : a.Settles sources folder settled) (hmem : source ∈ sources) :
    ∃ result, (source, result) ∈ settled := by
  rw [← h.sources] at hmem
  obtain ⟨⟨_, result⟩, hpair, rfl⟩ := List.mem_map.mp hmem
  exact ⟨result, hpair⟩

theorem mem_perFile (h : a.Settles sources folder settled) {entry : FileEntry} :
    entry ∈ folder.perFile.toList ↔ ∃ source ∈ sources, a.Alone source (.ok entry) := by
  rw [h.perFile, List.mem_filterMap]
  constructor
  · rintro ⟨⟨source, result⟩, hpair, hentry⟩
    cases result with
    | error e => cases hentry
    | ok other =>
      cases hentry
      exact ⟨source, h.sources ▸ List.mem_map_of_mem hpair, h.alone _ _ hpair⟩
  · rintro ⟨source, hmem, halone⟩
    obtain ⟨result, hpair⟩ := h.exists_result hmem
    exact ⟨_, hpair, by rw [(h.alone _ _ hpair).unique halone]; rfl⟩

theorem mem_skipped (h : a.Settles sources folder settled) {note : SkippedFile} :
    note ∈ folder.skipped.toList ↔
      ∃ source ∈ sources, ∃ e, a.Alone source (.error e) ∧ note = ⟨source.displayName, e.text⟩ := by
  rw [h.skipped, List.mem_filterMap]
  constructor
  · rintro ⟨⟨source, result⟩, hpair, hnote⟩
    cases result with
    | ok entry => cases hnote
    | error e =>
      cases hnote
      exact ⟨source, h.sources ▸ List.mem_map_of_mem hpair, e, h.alone _ _ hpair, rfl⟩
  · rintro ⟨source, hmem, e, halone, rfl⟩
    obtain ⟨result, hpair⟩ := h.exists_result hmem
    exact ⟨_, hpair, by rw [(h.alone _ _ hpair).unique halone]; rfl⟩

theorem filenames (h : a.Settles sources folder settled) (hall : ∀ source ∈ sources, a.Handles source) :
    folder.perFile.toList.map (·.filename) = (sources.filter a.fits).map (·.displayName) := by
  rw [h.perFile, ← h.sources, List.map_filterMap, List.filter_map, List.map_map, ← List.filterMap_eq_map,
    List.filterMap_filter]
  refine List.filterMap_congr ?_
  rintro ⟨source, result⟩ hpair
  exact (h.alone source result hpair).filename_eq (hall source (h.sources ▸ List.mem_map_of_mem hpair))

section Names

variable {entry : FileEntry} {e : AnalysisError} (h : a.Settles sources folder settled)
  (hall : ∀ source ∈ sources, a.Handles source) (hnodup : (sources.map (·.displayName)).Nodup)
  (hmem : source ∈ sources)
include h hall hnodup hmem

/-- If no two sources have the same name in reports, an entry belongs to the source of its name. -/
theorem alone_of_filename (hentry : entry ∈ folder.perFile.toList) (hname : entry.filename = source.displayName) :
    a.Alone source (.ok entry) := by
  obtain ⟨other, hother, halone⟩ := h.mem_perFile.mp hentry
  have hfilename : entry.filename = other.displayName := halone.filename_of_ok (hall other hother)
  rwa [List.inj_on_of_nodup_map hnodup hmem hother (hname.symm.trans hfilename)]

theorem mem_perFile_of_ok (halone : a.Alone source (.ok entry)) :
    entry ∈ folder.perFile.toList ∧ entry.filename = source.displayName ∧
      ∀ other ∈ folder.perFile.toList, other.filename = source.displayName → other = entry := by
  refine ⟨h.mem_perFile.mpr ⟨source, hmem, halone⟩, halone.filename_of_ok (hall source hmem), ?_⟩
  intro other hother hname
  exact Except.ok.inj ((h.alone_of_filename hall hnodup hmem hother hname).unique halone)

theorem mem_skipped_of_error (halone : a.Alone source (.error e)) :
    ⟨source.displayName, e.text⟩ ∈ folder.skipped.toList ∧
      ∀ entry ∈ folder.perFile.toList, entry.filename ≠ source.displayName := by
  refine ⟨h.mem_skipped.mpr ⟨source, hmem, e, halone, rfl⟩, fun entry hentry hname => ?_⟩
  cases (h.alone_of_filename hall hnodup hmem hentry hname).unique halone

end Names

end Settles

end Analyzer

end LineCensus
