import LineCensus.Proofs.FolderReports
import LineCensus.Proofs.LoadedRules
import LineCensus.Proofs.SingleRuns

/-! How a run of the command ends: for which causes it fails, what it has printed then, and that it has written
nothing. -/
namespace LineCensus.Command

structure Names (s : Surroundings) (options : Options) (node : Node) : Prop where
  noNull : hasNull (options.path.getD "") = false
  located : ∃ place, s.disk.locate .top (options.target s.folder) = .ok place
  listed : s.disk.find? (options.target s.folder).parts = some node
  real : node ≠ .ghost

structure Reads (s : Surroundings) (options : Options) (settings : Settings) (file : Node) (text : List Char)
    (entry : FileEntry) : Prop extends Starts s options settings file where
  single : file.isFolder = false
  goes : s.interrupted = false
  read : readSource s.disk (options.target s.folder) (options.target s.folder).name maxFileBytes = .ok text
  counted : (({ settings } : Analyzer).readText .cooperative none 0 (options.target s.folder).name text).outcome =
    .ok entry

inductive Completes (s : Surroundings) (options : Options) : Prop
  | file {settings : Settings} {file : Node} {text : List Char} {entry : FileEntry}
    (h : Reads s options settings file text entry)
  | folder {settings : Settings} {tree : Node} {scanner : Scanner} (h : Sweeps s options settings tree scanner)

/-- Why a run fails: for what its options name, for its settings, for a line of the rules of a folder, or for the name,
the content or the length of a single file. -/
inductive Fails (s : Surroundings) (options : Options) : Prop
  | missing (h : ∀ node, ¬Names s options node)
  | invalid (h : ∀ settings,
    Settings.ofValues (settingValue options.chunkSize) (settingValue options.maxLines) ≠ .ok settings)
  | rule {tree : Node} {line : List Char} (hnames : Names s options tree) (hfolder : tree.isFolder = true)
    (hline : line ∈ Ignore.givenLines tree (reportLines options.output))
    (hrule : ∀ rule, Ignore.Rule.ofLine? line ≠ .ok rule)
  | unsupported {file : Node} (hnames : Names s options file) (hfile : file.isFolder = false)
    (hname : Registry.builtin.isSupported (options.target s.folder).name = false)
  | unreadable {file : Node} {e : AnalysisError} (hnames : Names s options file) (hfile : file.isFolder = false)
    (hread : readSource s.disk (options.target s.folder) (options.target s.folder).name maxFileBytes = .error e)
  | refused {settings : Settings} {file : Node} {text : List Char} {e : AnalysisError}
    (hstarts : Starts s options settings file) (hfile : file.isFolder = false)
    (hread : readSource s.disk (options.target s.folder) (options.target s.folder).name maxFileBytes = .ok text)
    (hrefused : (({ settings } : Analyzer).readText .cooperative none 0 (options.target s.folder).name text).outcome =
      .error e)

/-- What else ends a run before it comes through: the user stops it at a single file, or the option for the extensions
has no value for a folder. -/
inductive Halts (s : Surroundings) (options : Options) : Prop
  | stopped {file : Node} (hnames : Names s options file) (hfile : file.isFolder = false)
    (hstop : s.interrupted = true)
  | noExtensions {tree : Node} (hnames : Names s options tree) (hfolder : tree.isFolder = true)
    (hextensions : options.extensions = none)

/-- What spoils the report of a run that has come through: the option for the number of largest files has no value and
there is a file to list, or there is a report to write and a null character in its path. -/
inductive Spoils (s : Surroundings) (options : Options) : Prop
  | noTop {settings : Settings} {tree : Node} {scanner : Scanner} {source : Source} {entry : FileEntry}
    (hsweeps : Sweeps s options settings tree scanner)
    (hsource : source ∈ scanner.sources s.disk (options.target s.folder))
    (halone : ({ settings } : Analyzer).Alone source (.ok entry)) (htop : options.top = none)
  | fileOutput {settings : Settings} {file : Node} {text : List Char} {entry : FileEntry}
    (hreads : Reads s options settings file text entry) (hnull : hasNull (options.output.getD "") = true)
  | folderOutput {settings : Settings} {tree : Node} {scanner : Scanner}
    (hsweeps : Sweeps s options settings tree scanner)
    (hne : scanner.sources s.disk (options.target s.folder) ≠ []) (hnull : hasNull (options.output.getD "") = true)

structure Outcome.FailsWith (outcome : Outcome) (text : String) : Prop where
  exitCode : outcome.exitCode = 1
  stdout : outcome.stdout = text
  written : outcome.written = []

variable {s : Surroundings} {options : Options} {settings : Settings} {node file tree : Node} {scanner : Scanner}
  {text : List Char} {entry : FileEntry}

private theorem Names.starts (h : Names s options node)
    (hvalid : Settings.ofValues (settingValue options.chunkSize) (settingValue options.maxLines) = .ok settings) :
    Starts s options settings node :=
  ⟨h.noNull, h.located, h.listed, h.real, hvalid⟩

private theorem Starts.names (h : Starts s options settings node) : Names s options node :=
  ⟨h.noNull, h.located, h.listed, h.real⟩

/-- The options name one node at most. -/
theorem Names.unique {other : Node} (h : Names s options node) (h' : Names s options other) : node = other :=
  Option.some.inj (h.listed.symm.trans h'.listed)

section Failures

private theorem failsWith_of_missing (h : ∀ node, ¬Names s options node) : (runOptions s options).FailsWith "" := by
  cases hnull : hasNull (options.path.getD "") with
  | true =>
    simp only [runOptions, hnull, if_true]
    exact ⟨rfl, rfl, rfl⟩
  | false =>
    cases hlocate : s.disk.locate .top (options.target s.folder) with
    | error fault =>
      simp only [runOptions, hnull, hlocate]
      cases fault <;> exact ⟨rfl, rfl, rfl⟩
    | ok place =>
      cases hlisted : s.disk.find? (options.target s.folder).parts with
      | none =>
        simp only [runOptions, hnull, hlocate, hlisted]
        exact ⟨rfl, rfl, rfl⟩
      | some node =>
        cases node with
        | ghost =>
          simp only [runOptions, hnull, hlocate, hlisted]
          exact ⟨rfl, rfl, rfl⟩
        | file | folder => exact absurd ⟨hnull, ⟨place, hlocate⟩, hlisted, Node.noConfusion⟩ (h _)

private theorem failsWith_of_invalid (h : ∀ settings,
    Settings.ofValues (settingValue options.chunkSize) (settingValue options.maxLines) ≠ .ok settings) :
    (runOptions s options).FailsWith "" := by
  by_cases hnames : ∃ node, Names s options node
  · obtain ⟨node, hnames⟩ := hnames
    obtain ⟨place, hplace⟩ := hnames.located
    cases hvalues : Settings.ofValues (settingValue options.chunkSize) (settingValue options.maxLines) with
    | ok settings => exact absurd hvalues (h settings)
    | error e =>
      have hreal := hnames.real
      simp only [runOptions, hnames.noNull, hplace, hnames.listed, hvalues]
      cases node with
      | ghost => exact absurd rfl hreal
      | file | folder => exact ⟨rfl, rfl, rfl⟩
  · exact failsWith_of_missing (not_exists.mp hnames)

private theorem failsWith_of_not_reads (hstarts : Starts s options settings file) (hfile : file.isFolder = false)
    (hnone : ∀ text entry, ¬Reads s options settings file text entry) :
    (runOptions s options).FailsWith (opening (options.target s.folder)).stdout ∨
      (runOptions s options).FailsWith ((opening (options.target s.folder)).stdout ++ "\nCancelled.\n") := by
  rw [runOptions_eq hstarts, hfile, if_neg Bool.false_ne_true]
  cases hname : ({ settings } : Analyzer).registry.isSupported (options.target s.folder).name with
  | false =>
    rw [runFile, Analyzer.language_eq_error hname]
    exact .inl ⟨rfl, rfl, rfl⟩
  | true =>
    cases hstop : s.interrupted with
    | true =>
      obtain ⟨language, -, hlanguage⟩ := Analyzer.language_eq_ok hname
      rw [runFile, hlanguage]
      dsimp only
      rw [hstop, if_pos rfl]
      exact .inr ⟨rfl, rfl, rfl⟩
    | false =>
      left
      cases hread : readSource s.disk (options.target s.folder) (options.target s.folder).name maxFileBytes with
      | error e =>
        rw [runFile_of_unreadable hname hstop hread]
        exact ⟨rfl, rfl, rfl⟩
      | ok text =>
        rcases Analyzer.prepare_cases (a := { settings }) (options.target s.folder).name text with
          ⟨e, he, -⟩ | ⟨language, hlanguage, hfit⟩
        · have hrun : ({ settings } : Analyzer).readText .cooperative none 0 (options.target s.folder).name text =
              { outcome := .error e, asked := 0 } := by
            rw [Analyzer.readText, he]
          rw [runFile_of_refused hname hstop hread hrun]
          exact ⟨rfl, rfl, rfl⟩
        · have hgo (n : Nat) : Batch.stopsAt .cooperative none n = false := rfl
          have hcounted := Analyzer.outcome_readText .cooperative 0 hlanguage hfit hgo
          exact absurd ⟨hstarts, hfile, hstop, hread, hcounted⟩ (hnone text _)

private theorem failsWith_of_not_sweeps (hstarts : Starts s options settings tree) (hfolder : tree.isFolder = true)
    (hnone : ∀ scanner, ¬Sweeps s options settings tree scanner) :
    (runOptions s options).FailsWith (opening (options.target s.folder)).stdout := by
  obtain ⟨notices, hnotices⟩ := exists_warn_warnings
    (Ignore.load (options.target s.folder) tree (reportLines options.output)).warnings
    (opening (options.target s.folder))
  rw [runOptions_eq hstarts, hfolder, if_pos rfl, runFolder, hnotices]
  cases hspec : (Ignore.load (options.target s.folder) tree (reportLines options.output)).spec with
  | error e => exact ⟨rfl, rfl, rfl⟩
  | ok spec =>
    cases hextensions : options.extensions with
    | none => exact ⟨rfl, rfl, rfl⟩
    | some text =>
      exact absurd ⟨hstarts, hfolder, hspec, rfl, ⟨text, hextensions, rfl⟩, rfl⟩
        (hnone { spec, extensions := parseExtensions text.toList })

/-- A run that does not come through has no report among its results. -/
theorem failsWith_of_not_completes (h : ¬Completes s options) :
    ∃ text ∈ ["", (opening (options.target s.folder)).stdout,
      (opening (options.target s.folder)).stdout ++ "\nCancelled.\n"], (runOptions s options).FailsWith text := by
  by_cases hnames : ∃ node, Names s options node
  · by_cases hvalid : ∃ settings,
        Settings.ofValues (settingValue options.chunkSize) (settingValue options.maxLines) = .ok settings
    · obtain ⟨node, hnames⟩ := hnames
      obtain ⟨settings, hvalid⟩ := hvalid
      cases hkind : node.isFolder with
      | true =>
        refine ⟨_, .tail _ (.head _), failsWith_of_not_sweeps (hnames.starts hvalid) hkind ?_⟩
        exact fun scanner hsweeps => h (.folder hsweeps)
      | false =>
        have hnone (text : List Char) (entry : FileEntry) : ¬Reads s options settings node text entry :=
          fun hreads => h (.file hreads)
        rcases failsWith_of_not_reads (hnames.starts hvalid) hkind hnone with hfails | hfails
        · exact ⟨_, .tail _ (.head _), hfails⟩
        · exact ⟨_, .tail _ (.tail _ (.head _)), hfails⟩
    · exact ⟨_, .head _, failsWith_of_invalid (not_exists.mp hvalid)⟩
  · exact ⟨_, .head _, failsWith_of_missing (not_exists.mp hnames)⟩

end Failures

section Reports

private theorem writeReport_of_null {output : Option String} (hnull : hasNull (output.getD "") = true)
    (fields : List (String × Value)) (c : Console) : writeReport s output fields c = c.crash .nullCharacter := by
  cases output with
  | none => exact absurd hnull (by decide)
  | some text =>
    have hnull : hasNull text = true := hnull
    have hne : text.isEmpty = false := by
      rw [Bool.eq_false_iff]
      intro hempty
      rw [String.isEmpty_iff.mp hempty] at hnull
      exact absurd hnull (by decide)
    simp only [writeReport, hne, hnull]
    rfl

/-- A run on a single file that comes to an entry prints its report, and may write it. -/
theorem Reads.exists_writeReport (h : Reads s options settings file text entry) :
    ∃ fields, ∃ last : Console, last.written = [] ∧
      runOptions s options = writeReport s options.output fields last := by
  have hrun : runOptions s options = runFile s options { settings } (options.target s.folder)
      (opening (options.target s.folder)) := by
    rw [runOptions_eq h.toStarts, h.single, if_neg Bool.false_ne_true]
  obtain ⟨content, hread, -⟩ := of_readSource_eq_ok h.read
  have hlisted : s.disk.find? (options.target s.folder).parts = some (.file content) := (Node.of_read_eq_ok hread).2
  obtain ⟨language, hlanguage, hfit⟩ := Analyzer.of_outcome_eq_ok h.counted
  obtain ⟨report, tokens, notices, -, hfile⟩ := runFile_of_fitting options h.goes h.read hlanguage hfit hread hlisted
    (opening (options.target s.folder))
  exact ⟨_, _, rfl, hrun.trans hfile⟩

private theorem Sweeps.exitCode_of_no_sources (h : Sweeps s options settings tree scanner)
    (hnone : scanner.sources s.disk (options.target s.folder) = []) : (runOptions s options).exitCode = 0 := by
  obtain ⟨text, hoption, hscanner⟩ := h.scanner_eq
  simp only [runOptions_eq h.toStarts, h.folder, if_true, runFolder, h.spec, hoption]
  rw [← hscanner, hnone]
  rfl

variable {folder : Folder} {overview : String} {tokens : List (String × Int)}

/-- A report of a folder is spoiled by an option without a value or by the path to write it to, and by nothing else. -/
theorem exitCode_reportFolder (hoverview : Report.overview folder = .ok overview) (c : Console) (hc : c.written = []) :
    ((options.top = none ∧ folder.perFile ≠ #[]) ∨ hasNull (options.output.getD "") = true →
      (reportFolder s options folder tokens c).exitCode = 1 ∧
        (reportFolder s options folder tokens c).written = []) ∧
    (¬((options.top = none ∧ folder.perFile ≠ #[]) ∨ hasNull (options.output.getD "") = true) →
      (reportFolder s options folder tokens c).exitCode = 0) := by
  have hlisted : (options.top.isNone && !folder.perFile.isEmpty) = true ↔
      options.top = none ∧ folder.perFile ≠ #[] := by simp
  rw [reportFolder, hoverview]
  dsimp only
  by_cases htop : options.top = none ∧ folder.perFile ≠ #[]
  · rw [if_pos (hlisted.mpr htop)]
    exact ⟨fun _ => ⟨rfl, hc⟩, fun hclean => absurd (.inl htop) hclean⟩
  · rw [if_neg (mt hlisted.mp htop)]
    cases hnull : hasNull (options.output.getD "") with
    | true =>
      rw [writeReport_of_null hnull]
      exact ⟨fun _ => ⟨rfl, hc⟩, fun hclean => absurd (.inr rfl) hclean⟩
    | false => exact ⟨fun hspoiled => absurd hspoiled (by simpa using htop), fun _ => exitCode_writeReport hnull _ _⟩

private theorem exists_stdout_writeReport (output : Option String) (fields : List (String × Value)) (c : Console) :
    ∃ rest, (writeReport s output fields c).stdout = c.stdout ++ rest := by
  cases output with
  | none => exact ⟨"", String.append_empty.symm⟩
  | some text =>
    rw [writeReport]
    split
    · exact ⟨"", String.append_empty.symm⟩
    · split
      · exact ⟨"", String.append_empty.symm⟩
      · dsimp only
        split
        · exact ⟨"", String.append_empty.symm⟩
        · exact ⟨_, rfl⟩

private theorem exists_stdout_reportFolder (hoverview : Report.overview folder = .ok overview) (c : Console) :
    ∃ rest, (reportFolder s options folder tokens c).stdout = c.stdout ++ overview ++ rest := by
  rw [reportFolder, hoverview]
  dsimp only
  split
  · exact ⟨"", String.append_empty.symm⟩
  · obtain ⟨rest, hrest⟩ := exists_stdout_writeReport options.output _ _
    exact ⟨Report.fileLists folder (options.top.getD 0) tokens ++ rest, hrest.trans String.append_assoc⟩

/-- With a number of largest files the whole report of a folder is printed. -/
theorem exists_writeReport_of_top {top : Int} {report : String} (htop : options.top = some top)
    (hreport : Report.ofFolder folder top tokens = .ok report) (c : Console) :
    ∃ fields, reportFolder s options folder tokens c = writeReport s options.output fields (c.print report) := by
  rw [Report.ofFolder] at hreport
  cases hoverview : Report.overview folder with
  | error e =>
    rw [hoverview] at hreport
    cases hreport
  | ok overview =>
    rw [hoverview] at hreport
    cases hreport
    have hprint (rest : String) : (c.print overview).print rest = c.print (overview ++ rest) :=
      congrArg (fun stdout => ({ c with stdout } : Console)) String.append_assoc
    rw [reportFolder, hoverview]
    simp only [htop, Option.isNone_some, Bool.false_and, Bool.false_eq_true, if_false, Option.getD_some, hprint]
    exact ⟨_, rfl⟩

end Reports

section Endings

/-- A run over a folder that has sources prints the first part of its report, however it ends. -/
theorem Sweeps.exists_overview_printed (h : Sweeps s options settings tree scanner)
    (hne : scanner.sources s.disk (options.target s.folder) ≠ []) :
    ∃ folder overview notices rest, Report.overview folder = .ok overview ∧ (runOptions s options).stdout =
      (analyzing (options.target s.folder) (scanner.sources s.disk (options.target s.folder)) notices).stdout ++
        overview ++ rest := by
  obtain ⟨folder, settled, before, behind, hsettles, hrun⟩ := runOptions_folder h hne
  obtain ⟨overview, hoverview⟩ := hsettles.exists_overview h.maxBytes
  obtain ⟨rest, hrest⟩ := exists_stdout_reportFolder hoverview _
  rw [hrun]
  exact ⟨folder, overview, before, rest, hoverview, hrest⟩

/-- With a number of largest files a run over a folder prints the whole report of what its sources come to. -/
theorem Sweeps.exists_report_printed (h : Sweeps s options settings tree scanner)
    (hne : scanner.sources s.disk (options.target s.folder) ≠ []) {top : Int} (htop : options.top = some top) :
    ∃ folder report notices rest,
      (({ settings } : Analyzer).readFolder none (scanner.sources s.disk (options.target s.folder))).outcome =
        .ok folder ∧
      Report.ofFolder folder top (folderTokens s options (scanner.sources s.disk (options.target s.folder))) =
        .ok report ∧
      (runOptions s options).stdout =
        (analyzing (options.target s.folder) (scanner.sources s.disk (options.target s.folder)) notices).stdout ++
          report ++ rest := by
  obtain ⟨folder, settled, before, behind, hsettles, hrun⟩ := runOptions_folder h hne
  obtain ⟨overview, hoverview⟩ := hsettles.exists_overview h.maxBytes
  obtain ⟨report, hreport⟩ : ∃ report, Report.ofFolder folder top
      (folderTokens s options (scanner.sources s.disk (options.target s.folder))) = .ok report := by
    rw [Report.ofFolder, hoverview]
    exact ⟨_, rfl⟩
  obtain ⟨fields, hwritten⟩ := exists_writeReport_of_top htop hreport
    ((analyzing (options.target s.folder) (scanner.sources s.disk (options.target s.folder)) before).warn behind)
  obtain ⟨rest, hrest⟩ := exists_stdout_writeReport options.output fields _
  refine ⟨folder, report, before, rest, hsettles.outcome, hreport, ?_⟩
  rw [hrun, hwritten, hrest]
  rfl

/-- A run over a folder that has sources fails if its report is spoiled, and for nothing that a source comes to. -/
theorem Sweeps.exitCode_runOptions (h : Sweeps s options settings tree scanner)
    (hne : scanner.sources s.disk (options.target s.folder) ≠ []) :
    let spoiled := (options.top = none ∧ ∃ source ∈ scanner.sources s.disk (options.target s.folder), ∃ entry,
      ({ settings } : Analyzer).Alone source (.ok entry)) ∨ hasNull (options.output.getD "") = true
    (spoiled → (runOptions s options).exitCode = 1 ∧ (runOptions s options).written = []) ∧
      (¬spoiled → (runOptions s options).exitCode = 0) := by
  intro spoiled
  obtain ⟨folder, settled, before, behind, hsettles, hrun⟩ := runOptions_folder h hne
  obtain ⟨overview, hoverview⟩ := hsettles.exists_overview h.maxBytes
  have hlisted : (∃ source ∈ scanner.sources s.disk (options.target s.folder), ∃ entry,
      ({ settings } : Analyzer).Alone source (.ok entry)) ↔ folder.perFile ≠ #[] := by
    rw [ne_eq, ← Array.toList_eq_nil_iff, List.eq_nil_iff_forall_not_mem]
    simp only [hsettles.mem_perFile]
    push Not
    constructor
    · rintro ⟨source, hsource, entry, halone⟩
      exact ⟨entry, source, hsource, halone⟩
    · rintro ⟨entry, source, hsource, halone⟩
      exact ⟨source, hsource, entry, halone⟩
  simp only [spoiled, hlisted, hrun]
  exact exitCode_reportFolder hoverview _ rfl

private theorem Sweeps.exitCode_eq_zero (h : Sweeps s options settings tree scanner) (hclean : ¬Spoils s options) :
    (runOptions s options).exitCode = 0 := by
  by_cases hne : scanner.sources s.disk (options.target s.folder) = []
  · exact h.exitCode_of_no_sources hne
  · refine (h.exitCode_runOptions hne).2 ?_
    rintro (⟨htop, source, hsource, entry, halone⟩ | hnull)
    · exact hclean (.noTop h hsource halone htop)
    · exact hclean (.folderOutput h hne hnull)

private theorem Completes.exitCode_eq_zero (h : Completes s options) (hclean : ¬Spoils s options) :
    (runOptions s options).exitCode = 0 := by
  cases h with
  | file hreads =>
    obtain ⟨fields, last, -, hrun⟩ := hreads.exists_writeReport
    rw [hrun]
    refine exitCode_writeReport (Bool.eq_false_iff.mpr fun hnull => ?_) fields last
    exact hclean (.fileOutput hreads hnull)
  | folder hsweeps => exact hsweeps.exitCode_eq_zero hclean

private theorem Spoils.fails (h : Spoils s options) :
    (runOptions s options).exitCode = 1 ∧ (runOptions s options).written = [] := by
  cases h with
  | noTop hsweeps hsource halone htop =>
    exact (hsweeps.exitCode_runOptions (List.ne_nil_of_mem hsource)).1 (.inl ⟨htop, _, hsource, _, halone⟩)
  | fileOutput hreads hnull =>
    obtain ⟨fields, last, hwritten, hrun⟩ := hreads.exists_writeReport
    rw [hrun, writeReport_of_null hnull]
    exact ⟨rfl, hwritten⟩
  | folderOutput hsweeps hne hnull => exact (hsweeps.exitCode_runOptions hne).1 (.inr hnull)

end Endings

section Causes

/-- A run comes through unless one of the causes stands against it: the first that it meets. -/
theorem completes_or_cause (s : Surroundings) (options : Options) :
    Completes s options ∨ Fails s options ∨ Halts s options := by
  by_cases hnames : ∃ node, Names s options node
  swap
  · exact .inr (.inl (.missing (not_exists.mp hnames)))
  by_cases hvalid : ∃ settings,
      Settings.ofValues (settingValue options.chunkSize) (settingValue options.maxLines) = .ok settings
  swap
  · exact .inr (.inl (.invalid (not_exists.mp hvalid)))
  obtain ⟨node, hnames⟩ := hnames
  obtain ⟨settings, hvalid⟩ := hvalid
  cases hkind : node.isFolder with
  | true =>
    by_cases hrules : ∀ line ∈ Ignore.givenLines node (reportLines options.output),
        ∃ rule, Ignore.Rule.ofLine? line = .ok rule
    · obtain ⟨spec, hspec⟩ := Ignore.exists_ofLines_eq_ok_iff.mpr hrules
      cases hextensions : options.extensions with
      | none => exact .inr (.inr (.noExtensions hnames hkind hextensions))
      | some text =>
        have hspec := (Ignore.load_spec (options.target s.folder) node (reportLines options.output)).trans hspec
        let scanner : Scanner := { spec, extensions := parseExtensions text.toList }
        have hsweeps : Sweeps s options settings node scanner :=
          ⟨hnames.starts hvalid, hkind, hspec, rfl, ⟨text, hextensions, rfl⟩, rfl⟩
        exact .inl (.folder hsweeps)
    · push Not at hrules
      obtain ⟨line, hline, hrule⟩ := hrules
      exact .inr (.inl (.rule hnames hkind hline hrule))
  | false =>
    cases hread : readSource s.disk (options.target s.folder) (options.target s.folder).name maxFileBytes with
    | error e => exact .inr (.inl (.unreadable hnames hkind hread))
    | ok text =>
      cases hcounted : (({ settings } : Analyzer).readText .cooperative none 0 (options.target s.folder).name
          text).outcome with
      | error e => exact .inr (.inl (.refused (hnames.starts hvalid) hkind hread hcounted))
      | ok entry =>
        cases hstop : s.interrupted with
        | true => exact .inr (.inr (.stopped hnames hkind hstop))
        | false => exact .inl (.file ⟨hnames.starts hvalid, hkind, hstop, hread, hcounted⟩)

private theorem Reads.supported (h : Reads s options settings file text entry) :
    Registry.builtin.isSupported (options.target s.folder).name = true := by
  obtain ⟨language, hlanguage, -⟩ := Analyzer.of_outcome_eq_ok h.counted
  exact Option.isSome_of_eq_some hlanguage

private theorem Reads.not_cause (h : Reads s options settings file text entry) :
    ¬(Fails s options ∨ Halts s options) := by
  have hnames := h.toStarts.names
  rintro (hfails | hhalts)
  · cases hfails with
    | missing hmissing => exact hmissing file hnames
    | invalid hinvalid => exact hinvalid settings h.valid
    | rule hother hfolder =>
      rw [← hnames.unique hother, h.single] at hfolder
      cases hfolder
    | unsupported _ _ hname => cases h.supported.symm.trans hname
    | unreadable _ _ hread => cases h.read.symm.trans hread
    | refused hstarts _ hread hrefused =>
      cases h.read.symm.trans hread
      cases h.valid.symm.trans hstarts.valid
      cases h.counted.symm.trans hrefused
  · cases hhalts with
    | stopped _ _ hstop => cases h.goes.symm.trans hstop
    | noExtensions hother hfolder =>
      rw [← hnames.unique hother, h.single] at hfolder
      cases hfolder

private theorem Sweeps.not_cause (h : Sweeps s options settings tree scanner) :
    ¬(Fails s options ∨ Halts s options) := by
  have hnames := h.toStarts.names
  have hsingle {file : Node} (hother : Names s options file) : file.isFolder ≠ false := by
    rw [← hnames.unique hother, h.folder]
    exact Bool.true_eq_false_eq_False
  rintro (hfails | hhalts)
  · cases hfails with
    | missing hmissing => exact hmissing tree hnames
    | invalid hinvalid => exact hinvalid settings h.valid
    | rule hother _ hline hrule =>
      cases hnames.unique hother
      have hspec := (Ignore.load_spec _ _ _).symm.trans h.spec
      obtain ⟨rule, hok⟩ := Ignore.exists_ofLines_eq_ok_iff.mp ⟨_, hspec⟩ _ hline
      exact hrule rule hok
    | unsupported hother hfile => exact hsingle hother hfile
    | unreadable hother hfile => exact hsingle hother hfile
    | refused hstarts hfile => exact hsingle hstarts.names hfile
  · cases hhalts with
    | stopped hother hfile => exact hsingle hother hfile
    | noExtensions _ _ hextensions =>
      obtain ⟨text, hoption, -⟩ := h.extensions
      cases hoption.symm.trans hextensions

private theorem completes_iff : Completes s options ↔ ¬(Fails s options ∨ Halts s options) := by
  constructor
  · rintro (hreads | hsweeps)
    · exact hreads.not_cause
    · exact hsweeps.not_cause
  · exact (completes_or_cause s options).resolve_right

end Causes

private theorem Spoils.without_value_or_null (h : Spoils s options) :
    options.top = none ∨ hasNull (options.output.getD "") = true := by
  cases h with
  | noTop _ _ _ htop => exact .inl htop
  | fileOutput _ hnull => exact .inr hnull
  | folderOutput _ _ hnull => exact .inr hnull

/-- A run comes through and ends well, or its report is spoiled, or it does not come through. -/
theorem runOptions_cases (s : Surroundings) (options : Options) :
    (¬(Fails s options ∨ Halts s options) ∧ ¬Spoils s options ∧ (runOptions s options).exitCode = 0) ∨
    (Spoils s options ∧ (runOptions s options).exitCode = 1 ∧ (runOptions s options).written = []) ∨
    ((Fails s options ∨ Halts s options) ∧ ∃ text ∈ ["", (opening (options.target s.folder)).stdout,
      (opening (options.target s.folder)).stdout ++ "\nCancelled.\n"], (runOptions s options).FailsWith text) := by
  by_cases hspoils : Spoils s options
  · exact .inr (.inl ⟨hspoils, hspoils.fails⟩)
  · by_cases hcause : Fails s options ∨ Halts s options
    · exact .inr (.inr ⟨hcause, failsWith_of_not_completes fun hcompletes => completes_iff.mp hcompletes hcause⟩)
    · exact .inl ⟨hcause, hspoils, (completes_iff.mpr hcause).exitCode_eq_zero hspoils⟩

/-- A run with arguments that make a request ends with 0 or with 1. It ends with 1 exactly if there is a cause: what
the options name is not there, the settings are not valid, a line for a folder is no rule, a single file has no
language, cannot be read or is refused; or else the user stops a run on a single file, or an option that has no value
is needed, or the path of a report that is due cannot be one. Then it has written nothing, and unless it is its own
report that is spoiled it has printed no part of one. Whatever the sources of a folder come to, it ends with 0 if the
options that the report needs are in order. -/
theorem run_fails_iff_cause (s : Surroundings) (arguments : List String) (options : Options)
    (harguments : Options.ofArguments arguments = .ok options) :
    let outcome := run s arguments
    let opened := (opening (options.target s.folder)).stdout
    (outcome.exitCode = 0 ∨ outcome.exitCode = 1) ∧
    (outcome.exitCode = 1 ↔ (Fails s options ∨ Halts s options) ∨ Spoils s options) ∧
    (outcome.exitCode = 1 → outcome.written = []) ∧
    (outcome.exitCode = 1 → ¬Spoils s options → outcome.stdout ∈ ["", opened, opened ++ "\nCancelled.\n"]) ∧
    ∀ settings tree scanner, Sweeps s options settings tree scanner → options.top ≠ none →
      hasNull (options.output.getD "") = false → outcome.exitCode = 0 := by
  intro outcome opened
  have hrun : outcome = runOptions s options := by simp only [outcome, run, harguments]
  have hsweeps (settings : Settings) (tree : Node) (scanner : Scanner)
      (hsweeps : Sweeps s options settings tree scanner) (htop : options.top ≠ none)
      (hnull : hasNull (options.output.getD "") = false) : (runOptions s options).exitCode = 0 := by
    refine hsweeps.exitCode_eq_zero fun hspoils => ?_
    rcases hspoils.without_value_or_null with hnone | hyes
    · exact htop hnone
    · cases hnull.symm.trans hyes
  rw [hrun]
  rcases runOptions_cases s options with
    ⟨hnocause, hclean, hzero⟩ | ⟨hspoils, hone, hwritten⟩ | ⟨hcause, text, htext, hfails⟩
  · have hne : (runOptions s options).exitCode ≠ 1 := by
      rw [hzero]
      exact Nat.zero_ne_one
    refine ⟨.inl hzero, ⟨fun hone => absurd hone hne, ?_⟩, fun hone => absurd hone hne,
      fun hone => absurd hone hne, hsweeps⟩
    rintro (hcause | hspoils)
    · exact absurd hcause hnocause
    · exact absurd hspoils hclean
  · exact ⟨.inr hone, ⟨fun _ => .inr hspoils, fun _ => hone⟩, fun _ => hwritten,
      fun _ hclean => absurd hspoils hclean, hsweeps⟩
  · refine ⟨.inr hfails.exitCode, ⟨fun _ => .inl hcause, fun _ => hfails.exitCode⟩, fun _ => hfails.written,
      fun _ _ => ?_, hsweeps⟩
    rw [hfails.stdout]
    exact htext

/-- A file of two lines where one is allowed. -/
theorem run_fails_on_two_lines : ∃ options, Options.ofArguments ["a.py", "--max-lines", "1"] = .ok options ∧
    Fails twoLines options ∧ (run twoLines ["a.py", "--max-lines", "1"]).exitCode = 1 ∧
      (run twoLines ["a.py", "--max-lines", "1"]).written = [] := by
  let options : Options := { path := some "a.py", maxLines := some 1 }
  let settings : Settings := { Settings.default with maxLines := 1, maxLines_pos := Nat.one_pos }
  have harguments : Options.ofArguments ["a.py", "--max-lines", "1"] = .ok options := by decide +kernel
  have htarget : options.target twoLines.folder = { root := "/", parts := ["a.py"] } := by decide
  have hstarts : Starts twoLines options settings (.file (.bytes "x = 1\ny = 2".toUTF8)) := by
    refine ⟨by decide, ⟨["a.py"], ?_⟩, ?_, Node.noConfusion, rfl⟩ <;> rw [htarget] <;> rfl
  have hread : readSource twoLines.disk (options.target twoLines.folder) (options.target twoLines.folder).name
      maxFileBytes = .ok "x = 1\ny = 2".toList := by
    rw [htarget]
    rfl
  have hlong : (({ settings } : Analyzer).readText .cooperative none 0 (options.target twoLines.folder).name
      "x = 1\ny = 2".toList) = _ :=
    Analyzer.readText_of_tooLong .cooperative none 0 (by rw [htarget]; decide) (by decide)
  have hfails : Fails twoLines options := .refused hstarts rfl hread (congrArg FileRun.outcome hlong)
  obtain ⟨-, hiff, hwritten, -⟩ := run_fails_iff_cause twoLines _ options harguments
  have hone := hiff.mpr (.inl (.inl hfails))
  exact ⟨options, harguments, hfails, hone, hwritten hone⟩

/-- An option whose value two hyphens stand for has none. A run with it fails for no cause of its own when it comes to
the list of the largest files, behind the first part of its report. -/
theorem run_fails_behind_overview : ∃ options settings scanner, Options.ofArguments ["--top=--"] = .ok options ∧
    Sweeps twoLines options settings twoLines.disk scanner ∧ ¬Fails twoLines options ∧
      (run twoLines ["--top=--"]).exitCode = 1 ∧
      ∃ folder overview, ∃ c : Console, ∃ rest, Report.overview folder = .ok overview ∧
        (run twoLines ["--top=--"]).stdout = c.stdout ++ overview ++ rest := by
  let options : Options := { top := none }
  have harguments : Options.ofArguments ["--top=--"] = .ok options := by decide +kernel
  obtain ⟨scanner, hsweeps, hfiles⟩ := exists_sweeps_twoLines options .default rfl rfl rfl rfl
  have hne : scanner.sources twoLines.disk (options.target twoLines.folder) ≠ [] := by
    rw [Scanner.sources, hsweeps.listed]
    dsimp only
    rw [hfiles]
    exact List.cons_ne_nil _ _
  obtain ⟨folder, overview, notices, rest, hoverview, hstdout⟩ := hsweeps.exists_overview_printed hne
  have hrun : run twoLines ["--top=--"] = runOptions twoLines options := by rw [run, harguments]
  rw [← hrun] at hstdout
  exact ⟨options, .default, scanner, harguments, hsweeps, fun hfails => hsweeps.not_cause (.inl hfails),
    by decide +kernel, folder, overview, _, rest, hoverview, hstdout⟩

end LineCensus.Command
