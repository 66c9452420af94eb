import LineCensus.Command.Run
import LineCensus.Proofs.ScannedSources

/-! Runs of the command that come to an analysis: of the single file that the options name, or of the sources that a
scan of the folder finds. -/
namespace LineCensus.Command

def opening (target : Path) : Console :=
  ({} : Console).print (Report.unlines ["--- " ++ name ++ " ---", "Target: " ++ target.toString])

/-- A run that begins to analyse: its options name a node of the disk, and its settings are valid. -/
structure Starts (s : Surroundings) (options : Options) (settings : Settings) (node : Node) : Prop where
  noNull : hasNull (options.path.getD "") = false
  located : ∃ place, s.disk.locate .top (options.target s.folder) = .ok place
  listed : s.disk.find? (options.target s.folder).parts = some node
  real : node ≠ .ghost
  valid : Settings.ofValues (settingValue options.chunkSize) (settingValue options.maxLines) = .ok settings

/-- A run that begins to analyse the sources of a folder, as a scan of it finds them. -/
structure Sweeps (s : Surroundings) (options : Options) (settings : Settings) (tree : Node) (scanner : Scanner) : Prop
    extends Starts s options settings tree where
  folder : tree.isFolder = true
  spec : (Ignore.load (options.target s.folder) tree (reportLines options.output)).spec = .ok scanner.spec
  registry : scanner.registry = .builtin
  extensions : ∃ text, options.extensions = some text ∧ scanner.extensions = parseExtensions text.toList
  maxBytes : scanner.maxBytes = maxFileBytes

variable {s : Surroundings} {options : Options} {settings : Settings} {node tree : Node} {scanner : Scanner}

theorem runOptions_eq (h : Starts s options settings node) :
    runOptions s options =
      if node.isFolder then
        runFolder s options { settings } (options.target s.folder) node (opening (options.target s.folder))
      else runFile s options { settings } (options.target s.folder) (opening (options.target s.folder)) := by
  obtain ⟨place, hplace⟩ := h.located
  have hreal := h.real
  simp only [runOptions, h.noNull, hplace, h.listed, h.valid, opening]
  cases node with
  | ghost => exact absurd rfl hreal
  | file | folder => exact if_neg Bool.false_ne_true

def folderTokens (s : Surroundings) (options : Options) (sources : List Source) : List (String × Int) :=
  if options.tokens then countTokens s.supply {} sources else []

theorem Sweeps.handles (h : Sweeps s options settings tree scanner) (htree : tree.Distinct) (hnames : tree.Named) :
    ∀ source ∈ scanner.sources s.disk (options.target s.folder), ({ settings } : Analyzer).Handles source :=
  Scanner.handles_sources htree hnames h.listed h.registry.symm

theorem Sweeps.nodup_names (h : Sweeps s options settings tree scanner) (htree : tree.Distinct)
    (hnames : tree.Named) :
    ((scanner.sources s.disk (options.target s.folder)).map (·.displayName)).Nodup :=
  Scanner.nodup_displayName htree hnames h.listed

/-- A scan is known from its rules and from the extensions that the options name. -/
theorem Sweeps.scanner_eq (h : Sweeps s options settings tree scanner) : ∃ text, options.extensions = some text ∧
    scanner = { spec := scanner.spec, registry := .builtin, extensions := parseExtensions text.toList } := by
  obtain ⟨text, hoption, hextensions⟩ := h.extensions
  refine ⟨text, hoption, ?_⟩
  rw [← h.registry, ← hextensions, show (maxFileBytes : Int) = scanner.maxBytes from h.maxBytes.symm]

private theorem warn_empty (c : Console) : c.warn "" = c := by
  simp [Console.warn]

theorem exists_warn_foldl {α : Type} {f : Console → α → Console} (h : ∀ c item, ∃ text, f c item = c.warn text)
    (items : List α) (c : Console) : ∃ text, items.foldl f c = c.warn text := by
  induction items generalizing c with
  | nil => exact ⟨"", (warn_empty c).symm⟩
  | cons item rest ih =>
    obtain ⟨first, hfirst⟩ := h c item
    obtain ⟨others, hothers⟩ := ih (c.warn first)
    refine ⟨first ++ others, ?_⟩
    rw [List.foldl_cons, hfirst, hothers]
    simp [Console.warn, String.append_assoc]

theorem exists_warn_progress (options : Options) (label : String) (percent : Numeric.Binary64) (c : Console) :
    ∃ text, c.progress options label percent = c.warn text := by
  rw [Console.progress]
  split
  · exact ⟨"", (warn_empty c).symm⟩
  · exact ⟨_, rfl⟩

private theorem exists_warn_event (options : Options) (event : FolderEvent) (c : Console) :
    ∃ text, c.event options event = c.warn text := by
  cases event with
  | loaded source => exact ⟨"", (warn_empty c).symm⟩
  | skipped file => exact ⟨_, rfl⟩
  | counted entry =>
    rw [Console.event]
    split
    · exact ⟨_, rfl⟩
    · exact ⟨"", (warn_empty c).symm⟩
  | progress percent => exact exists_warn_progress options "Progress" percent c

/-- What happens in the analysis of a folder is told beside the results. -/
theorem exists_warn_events (options : Options) (events : Array FolderEvent) (c : Console) :
    ∃ text, events.foldl (fun c event => c.event options event) c = c.warn text := by
  rw [← Array.foldl_toList]
  exact exists_warn_foldl (fun c event => exists_warn_event options event c) events.toList c

/-- Warnings on the ignore file are told beside the results. -/
theorem exists_warn_warnings (warnings : List String) (c : Console) :
    ∃ text, warnings.foldl (fun c message => c.log "WARNING" message) c = c.warn text :=
  exists_warn_foldl (fun _ _ => ⟨_, rfl⟩) warnings c

def analyzing (target : Path) (sources : List Source) (notices : String) : Console :=
  ((opening target).warn notices).printLine ("Analyzing " ++ toString sources.length ++ " files...")

/-- A run over a folder that has sources makes a report of the folder in which each source stands with what it comes
to alone. -/
theorem runOptions_folder (h : Sweeps s options settings tree scanner)
    (hne : scanner.sources s.disk (options.target s.folder) ≠ []) :
    ∃ folder settled before behind,
      ({ settings } : Analyzer).Settles (scanner.sources s.disk (options.target s.folder)) folder settled ∧
        runOptions s options = reportFolder s options folder
          (folderTokens s options (scanner.sources s.disk (options.target s.folder)))
          ((analyzing (options.target s.folder) (scanner.sources s.disk (options.target s.folder)) before).warn
            behind) := by
  obtain ⟨folder, settled, hsettles⟩ : ∃ folder settled,
      ({ settings } : Analyzer).Settles (scanner.sources s.disk (options.target s.folder)) folder settled := by
    refine Analyzer.exists_settles (fun source hmem => ?_) fun source hmem => Scanner.ordinary_of_mem_sources hmem
    have hsupported := Scanner.supported_of_mem_sources hmem
    rwa [h.registry] at hsupported
  have hfolder := hsettles.outcome
  have hloaded := hsettles.loaded
  obtain ⟨text, hoption, hscanner⟩ := h.scanner_eq
  obtain ⟨before, hbefore⟩ := exists_warn_warnings
    (Ignore.load (options.target s.folder) tree (reportLines options.output)).warnings
    (opening (options.target s.folder))
  obtain ⟨behind, hbehind⟩ := exists_warn_events options
    (({ settings } : Analyzer).readFolder none (scanner.sources s.disk (options.target s.folder))).events
    (analyzing (options.target s.folder) (scanner.sources s.disk (options.target s.folder)) before)
  refine ⟨folder, settled, before, behind, hsettles, ?_⟩
  simp only [runOptions_eq h.toStarts, h.folder, if_true, runFolder, h.spec, hoption]
  rw [← hscanner, if_neg (by simpa using hne)]
  simp only [hfolder, hloaded, hbefore]
  rw [analyzing] at hbehind ⊢
  rw [hbehind]
  rfl

def twoLines : Surroundings where
  folder := .top
  disk := .folder [("a.py", .file (.bytes "x = 1\ny = 2".toUTF8))]

theorem distinct_twoLines : twoLines.disk.Distinct := by
  decide

theorem named_twoLines : twoLines.disk.Named := by
  decide

theorem exists_sweeps_twoLines (options : Options) (settings : Settings) (hpath : options.path = none)
    (houtput : options.output = none) (hextensions : options.extensions = some "*")
    (hvalid : Settings.ofValues (settingValue options.chunkSize) (settingValue options.maxLines) = .ok settings) :
    ∃ scanner, Sweeps twoLines options settings twoLines.disk scanner ∧
      scanner.files twoLines.disk = [⟨["a.py"], .file (.bytes "x = 1\ny = 2".toUTF8)⟩] := by
  have htarget : options.target twoLines.folder = .top := by
    rw [Options.target, hpath]
    decide
  obtain ⟨spec, hspec⟩ : ∃ spec, (Ignore.load .top twoLines.disk []).spec = .ok spec := ⟨_, rfl⟩
  let scanner : Scanner := { spec }
  have hkeeps : scanner.keeps ⟨["a.py"], .file (.bytes "x = 1\ny = 2".toUTF8)⟩ = true := by
    cases hspec
    decide +kernel
  have hwalk : twoLines.disk.walk scanner.prunes [] = [⟨["a.py"], .file (.bytes "x = 1\ny = 2".toUTF8)⟩] := by
    simp [twoLines, Node.walk, Node.walkEntries, sortByName]
  have hstarts : Starts twoLines options settings twoLines.disk := by
    refine ⟨by rw [hpath]; decide, ⟨[], ?_⟩, ?_, Node.noConfusion, hvalid⟩ <;> rw [htarget] <;> rfl
  refine ⟨scanner, ⟨hstarts, rfl, ?_, rfl, ⟨"*", hextensions, rfl⟩, rfl⟩, ?_⟩
  · rw [htarget, houtput]
    exact hspec
  · rw [Scanner.files, hwalk, List.filter_singleton, hkeeps]
    rfl

end LineCensus.Command
