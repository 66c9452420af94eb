import LineCensus.Proofs.CommandRuns
import LineCensus.Proofs.FileReports

/-! A run on a single file against a run over a folder that holds it: both come to the same counters, or to errors of
the same class. -/
namespace LineCensus

namespace ErrorCode

theorem ofName?_eq_some_iff {text : String} {code : ErrorCode} : ofName? text = some code ↔ code.name = text := by
  constructor
  · intro h
    simpa using List.find?_some h
  · rintro rfl
    cases code <;> rfl

private theorem dropWhile_name (code : ErrorCode) (rest : List Char) :
    (code.name.toList ++ rest).dropWhile (· == '[') = code.name.toList ++ rest := by
  cases code <;> rfl

private theorem takeWhile_name (code : ErrorCode) (rest : List Char) :
    (code.name.toList ++ rest).takeWhile (· != ']') = code.name.toList ++ rest.takeWhile (· != ']') := by
  cases code <;> rfl

end ErrorCode

/-- The class of an error can be read off its text. -/
theorem AnalysisError.ofName?_text (e : AnalysisError) :
    ErrorCode.ofName? (String.ofList ((e.text.toList.dropWhile (· == '[')).takeWhile (· != ']'))) = some e.code := by
  rw [ErrorCode.ofName?_eq_some_iff, ← String.toList_inj, String.toList_ofList, text]
  split
  · rw [← List.append_nil e.code.name.toList, e.code.dropWhile_name, e.code.takeWhile_name]
    rfl
  · have htext : ("[" ++ e.code.name ++ "] " ++ e.message).toList =
        '[' :: (e.code.name.toList ++ ']' :: ' ' :: e.message.toList) := by
      simp only [String.toList_append, List.append_assoc]
      rfl
    have hdrop : ('[' :: (e.code.name.toList ++ ']' :: ' ' :: e.message.toList)).dropWhile (· == '[') =
        e.code.name.toList ++ ']' :: ' ' :: e.message.toList := e.code.dropWhile_name _
    rw [htext, hdrop, e.code.takeWhile_name]
    exact (List.append_nil _).symm

private theorem Path.top_join_collapse (path : Path) : Path.top.join path.collapse = path.collapse :=
  rfl

private theorem Path.name_join {root file : Path} (hrelative : file.Relative) (hne : file.parts ≠ []) :
    (root.join file).name = file.name := by
  rw [join, if_neg (by simp [isAbsolute, hrelative.root]), name, name, List.getLast?_append_of_ne_nil _ hne]

/-- A file that is read stands where its path says. -/
theorem Node.of_read_eq_ok {disk : Node} {path : Path} {content : Content}
    (h : disk.read path.collapse = .ok content) :
    (∃ place, disk.locate .top path.collapse = .ok place) ∧
      disk.find? path.collapse.parts = some (.file content) := by
  rw [read] at h
  cases hlocate : disk.locate .top path.collapse with
  | error fault =>
    rw [hlocate] at h
    cases h
  | ok place =>
    rw [hlocate] at h
    refine ⟨⟨place, rfl⟩, ?_⟩
    have hplace : place = path.collapse.parts := by
      rw [locate] at hlocate
      cases hlength : path.collapse.checkLength with
      | error fault =>
        rw [hlength] at hlocate
        cases hlocate
      | ok =>
        rw [hlength, Path.top_join_collapse] at hlocate
        exact follow_eq_ok (fun _ hpart => Path.ne_dots_of_mem_collapse hpart) hlocate
    rw [← hplace]
    simp only [bind, Except.bind] at h
    split at h
    · rename_i found hfound
      rw [hfound, Except.ok.inj h]
    · cases h
    · cases h

/-- Under another name in reports a file has the same text, or an error of the same class. -/
theorem readSource_renamed (disk : Node) (path : Path) (maxBytes : Int) (shown other : String) :
    (∃ text, readSource disk path shown maxBytes = .ok text ∧ readSource disk path other maxBytes = .ok text) ∨
      ∃ e e', readSource disk path shown maxBytes = .error e ∧ readSource disk path other maxBytes = .error e' ∧
        e'.code = e.code := by
  simp only [readSource]
  split
  · exact .inr ⟨_, _, rfl, rfl, rfl⟩
  · split
    · exact .inr ⟨_, _, rfl, rfl, rfl⟩
    · split
      · exact .inr ⟨_, _, rfl, rfl, rfl⟩
      · exact .inl ⟨_, rfl, rfl⟩

namespace Command

variable {s : Surroundings} {options : Options} {a : Analyzer} {path : Path} {c : Console} {text : List Char}
  {e : AnalysisError}

theorem exitCode_writeReport {output : Option String} (h : hasNull (output.getD "") = false)
    (fields : List (String × Value)) (c : Console) : (writeReport s output fields c).exitCode = 0 := by
  cases output with
  | none => rfl
  | some text =>
    have hnull : hasNull text = false := h
    simp only [writeReport, hnull]
    split
    · rfl
    · rw [if_neg Bool.false_ne_true]
      split <;> rfl

theorem runFile_of_unreadable (hname : a.registry.isSupported path.name = true) (hgo : s.interrupted = false)
    (hread : readSource s.disk path path.name maxFileBytes = .error e) : runFile s options a path c = c.fail e := by
  obtain ⟨language, -, hlanguage⟩ := Analyzer.language_eq_ok hname
  simp only [runFile, hlanguage, hgo, hread]
  exact if_neg Bool.false_ne_true

theorem runFile_of_refused (hname : a.registry.isSupported path.name = true) (hgo : s.interrupted = false)
    (hread : readSource s.disk path path.name maxFileBytes = .ok text)
    (hrun : a.readText .cooperative none 0 path.name text = { outcome := .error e, asked := 0 }) :
    runFile s options a path c = c.fail e := by
  obtain ⟨language, -, hlanguage⟩ := Analyzer.language_eq_ok hname
  simp only [runFile, hlanguage, hgo, hread, hrun]
  exact if_neg Bool.false_ne_true

def fileTokens (s : Surroundings) (options : Options) (text : List Char) : Option Int :=
  if options.tokens then some (Tokens.Session.count s.supply {} text).1 else none

private theorem runFile_of_entry (hname : a.registry.isSupported path.name = true) (hgo : s.interrupted = false)
    (hread : readSource s.disk path path.name maxFileBytes = .ok text) {entry : FileEntry}
    (hrun : (a.readText .cooperative none 0 path.name text).outcome = .ok entry) {content : Content}
    (hlisted : s.disk.find? path.parts = some (.file content)) {report : String}
    (hreport : Report.ofFile entry (some content.size) (fileTokens s options text) = .ok report) :
    ∃ notices, runFile s options a path c =
      writeReport s options.output
        (entry.fields ++ ((fileTokens s options text).map fun n => ("tokens", Value.integer n)).toList)
        ((c.warn notices).print report) := by
  obtain ⟨language, -, hlanguage⟩ := Analyzer.language_eq_ok hname
  obtain ⟨notices, hnotices⟩ := exists_warn_foldl
    (fun c percent => exists_warn_progress options ("Analyzing " ++ path.name) percent c)
    (a.readText .cooperative none 0 path.name text).progress c
  refine ⟨notices, ?_⟩
  rw [fileTokens] at hreport ⊢
  simp only [runFile, hlanguage, hgo, hread, hrun, hlisted, hreport, hnotices]
  exact if_neg Bool.false_ne_true

section Agreement

variable {settings : Settings} {tree : Node} {scanner : Scanner} {found : Found} {root : Path}
  {content : Content} {language : Language}

def entryOf (settings : Settings) (language : Language) (name : String) (text : List Char) : FileEntry :=
  ⟨name, language.name, .ofResults (readAll language.readLine .normal ((Text.splitAt '\n' text).take
    (Batch.count settings.chunkSize (text.count '\n' + 1) * settings.chunkSize))).1⟩

theorem runFile_of_fitting (single : Options) (hgo : s.interrupted = false)
    (htext : readSource s.disk path path.name maxFileBytes = .ok text)
    (hlanguage : Registry.builtin.resolve? path.name = some language) (hfit : text.count '\n' + 1 ≤ settings.maxLines)
    (hread : s.disk.read path = .ok content) (hlisted : s.disk.find? path.parts = some (.file content))
    (c : Console) :
    ∃ report tokens notices,
      Report.ofFile (entryOf settings language path.name text) (some content.size) tokens = .ok report ∧
      runFile s single { settings } path c = writeReport s single.output
        ((entryOf settings language path.name text).fields ++
          (tokens.map fun n => ("tokens", Value.integer n)).toList) ((c.warn notices).print report) := by
  have hsupported : Registry.builtin.isSupported path.name = true := Option.isSome_of_eq_some hlanguage
  have hgoes (n : Nat) : Batch.stopsAt .cooperative none n = false := rfl
  have hrun := Analyzer.outcome_readText (a := { settings }) .cooperative 0 hlanguage hfit hgoes
  obtain ⟨report, hreport⟩ := exists_report hread htext hlanguage path.name
    (Batch.count settings.chunkSize (text.count '\n' + 1) * settings.chunkSize) (fileTokens s single text)
  obtain ⟨notices, hfile⟩ := runFile_of_entry (c := c) hsupported hgo htext hrun hlisted hreport
  exact ⟨report, _, notices, hreport, hfile⟩

/-- What a run on a single file comes to is what the file comes to alone as a source of a scan, but for its name. -/
theorem runFile_alone (single : Options) (hselects : scanner.Selects tree found) (hnames : tree.Named)
    (hregistry : scanner.registry = .builtin) (hmax : scanner.maxBytes = maxFileBytes) (hgo : s.interrupted = false)
    (hread : s.disk.read (root.join { parts := found.path }) = .ok content)
    (hlisted : s.disk.find? (root.join { parts := found.path }).parts = some (.file content)) (c : Console) :
    (∃ e e', ({ settings } : Analyzer).Alone (scanner.source s.disk root found) (.error e') ∧ e'.code = e.code ∧
      runFile s single { settings } (root.join { parts := found.path }) c = c.fail e) ∨
    ∃ entry report tokens, ∃ last : Console,
      ({ settings } : Analyzer).Alone (scanner.source s.disk root found) (.ok entry) ∧ last.stdout = c.stdout ∧
      Report.ofFile { entry with filename := Path.name { parts := found.path } } (some content.size) tokens =
        .ok report ∧
      runFile s single { settings } (root.join { parts := found.path }) c = writeReport s single.output
        ({ entry with filename := Path.name { parts := found.path } : FileEntry }.fields ++
          (tokens.map fun n => ("tokens", Value.integer n)).toList) (last.print report) := by
  let a : Analyzer := { settings }
  let file : Path := { parts := found.path }
  have hhandles : a.Handles (scanner.source s.disk root found) := hselects.handles hnames hregistry.symm
  have hname : (root.join file).name = file.name := Path.name_join (hselects.relative hnames) hselects.inside
  have hsupported : a.registry.isSupported (root.join file).name = true := by
    rw [hname]
    exact hhandles.supported
  rcases readSource_renamed s.disk (root.join file) maxFileBytes (root.join file).name file.toString with
    ⟨text, htext, hshown⟩ | ⟨e, e', herror, hshown, hcode⟩
  · have hload : (scanner.source s.disk root found).load = .text text := by
      simp only [Scanner.source, hmax]
      rw [hshown]
    have halone := Analyzer.Alone.text hhandles.supported hload
    by_cases hfit : text.count '\n' + 1 ≤ settings.maxLines
    · right
      obtain ⟨language, hlanguage⟩ := Option.isSome_iff_exists.mp hsupported
      have hdisplayed : a.registry.resolve? (scanner.source s.disk root found).displayName = some language := by
        rw [hhandles.shown, ← hlanguage, hname]
        rfl
      rw [Analyzer.outcome_readText .immediate 0 hdisplayed hfit fun _ => rfl] at halone
      obtain ⟨report, tokens, notices, hreport, hfile⟩ :=
        runFile_of_fitting single hgo htext hlanguage hfit hread hlisted c
      rw [hname] at hreport hfile
      exact ⟨_, report, tokens, c.warn notices, halone, rfl, hreport, hfile⟩
    · left
      have hlong : settings.maxLines < text.count '\n' + 1 := Nat.lt_of_not_le hfit
      have hdisplayed : a.registry.isSupported (scanner.source s.disk root found).displayName = true := by
        rw [Registry.isSupported, hhandles.shown]
        exact hhandles.supported
      rw [Analyzer.readText_of_tooLong .immediate none 0 hdisplayed hlong] at halone
      have hrun := Analyzer.readText_of_tooLong .cooperative none 0 hsupported hlong
      exact ⟨.inputTooLarge (root.join file).name _ _ "lines", _, halone, rfl,
        runFile_of_refused hsupported hgo htext hrun⟩
  · left
    have hload : (scanner.source s.disk root found).load = .refused e' := by
      simp only [Scanner.source, hmax]
      rw [hshown]
    exact ⟨e, e', .refused hhandles.supported hload, hcode, runFile_of_unreadable hsupported hgo herror⟩

/-- A run on a single file that a scan of a folder finds ends well exactly if the run over the folder has the file in
its report, and then both have the same language and the same counters. If it does not end well, it ends with an error
of the analysis, and the run over the folder has left the file out with an error of the same class. The folder that a
file is in makes no difference to its extension. -/
theorem single_run_agrees (s : Surroundings) (options single : Options) (settings : Settings) (tree : Node)
    (scanner : Scanner) (found : Found) (content : Content) (h : Sweeps s options settings tree scanner)
    (htree : tree.Distinct) (hnames : tree.Named) (hfound : found ∈ scanner.files tree)
    (htarget : single.target s.folder = (options.target s.folder).join { parts := found.path })
    (hread : s.disk.read (single.target s.folder) = .ok content)
    (hchunk : single.chunkSize = options.chunkSize) (hlines : single.maxLines = options.maxLines)
    (hpath : hasNull (single.path.getD "") = false) (houtput : hasNull (single.output.getD "") = false)
    (hgo : s.interrupted = false) :
    let file : Path := { parts := found.path }
    (∀ path : Path, path.Relative → path.parts ≠ [] → extensionOf? path.toString = extensionOf? path.name) ∧
    ∃ folder tokens, ∃ c : Console, runOptions s options = reportFolder s options folder tokens c ∧
      ((runOptions s single).exitCode = 0 ↔
        ∃ entry ∈ folder.perFile.toList, entry.filename = file.toString) ∧
      (∀ entry ∈ folder.perFile.toList, entry.filename = file.toString → ∃ report count, ∃ last : Console,
        last.stdout = (opening (single.target s.folder)).stdout ∧
        Report.ofFile { entry with filename := file.name } (some content.size) count = .ok report ∧
        runOptions s single = writeReport s single.output
          ({ entry with filename := file.name : FileEntry }.fields ++
            (count.map fun n => ("tokens", Value.integer n)).toList) (last.print report)) ∧
      ((runOptions s single).exitCode ≠ 0 → ∃ e e' : AnalysisError,
        runOptions s single = (opening (single.target s.folder)).fail e ∧ e'.code = e.code ∧
        ⟨file.toString, e'.text⟩ ∈ folder.skipped.toList) := by
  intro file
  refine ⟨fun path hrelative hne => hrelative.extensionOf?_toString hne, ?_⟩
  obtain ⟨hlocated, hlisted⟩ : (∃ place, s.disk.locate .top (single.target s.folder) = .ok place) ∧
      s.disk.find? (single.target s.folder).parts = some (.file content) := Node.of_read_eq_ok hread
  have hstarts : Starts s single settings (.file content) :=
    ⟨hpath, hlocated, hlisted, Node.noConfusion, by rw [hchunk, hlines]; exact h.valid⟩
  have hselects := (Scanner.mem_files htree).mp hfound
  let source := scanner.source s.disk (options.target s.folder) found
  have hsource : source ∈ scanner.sources s.disk (options.target s.folder) :=
    (Scanner.mem_sources htree h.listed).mpr ⟨found, hselects, rfl⟩
  have hname : source.displayName = file.toString := Scanner.displayName_source found
  have hall := h.handles htree hnames
  have hnodup := h.nodup_names htree hnames
  obtain ⟨folder, settled, _, _, hsettles, hfolder⟩ := runOptions_folder h (List.ne_nil_of_mem hsource)
  have hrun : runOptions s single = runFile s single { settings } (single.target s.folder)
      (opening (single.target s.folder)) := (runOptions_eq hstarts).trans (if_neg Bool.false_ne_true)
  rw [htarget] at hread hlisted hrun ⊢
  refine ⟨folder, _, _, hfolder, ?_⟩
  rcases runFile_alone single hselects hnames h.registry h.maxBytes hgo hread hlisted
      (opening ((options.target s.folder).join file)) with
    ⟨e, e', halone, hcode, hfile⟩ | ⟨entry, report, count, last, halone, hlast, hreport, hfile⟩
  · have hrun := hrun.trans hfile
    obtain ⟨hskipped, hnone⟩ := hsettles.mem_skipped_of_error hall hnodup hsource halone
    rw [hname] at hskipped hnone
    have hfails : (runOptions s single).exitCode ≠ 0 := by
      rw [hrun]
      exact Nat.one_ne_zero
    refine ⟨⟨fun hzero => absurd hzero hfails, fun ⟨entry, hmem, hfilename⟩ => absurd hfilename (hnone entry hmem)⟩,
      fun entry hmem hfilename => absurd hfilename (hnone entry hmem), fun _ => ⟨e, e', hrun, hcode, hskipped⟩⟩
  · have hrun := hrun.trans hfile
    obtain ⟨hmem, hfilename, hunique⟩ := hsettles.mem_perFile_of_ok hall hnodup hsource halone
    rw [hname] at hfilename hunique
    have hzero : (runOptions s single).exitCode = 0 := by
      rw [hrun]
      exact exitCode_writeReport houtput _ _
    refine ⟨⟨fun _ => ⟨entry, hmem, hfilename⟩, fun _ => hzero⟩, ?_, fun hfail => absurd hzero hfail⟩
    intro other hother hsame
    obtain rfl := hunique other hother hsame
    exact ⟨report, count, last, hlast, hreport, hrun⟩

/-- The one file of a folder, read alone and with the folder. -/
theorem single_run_agrees_on_two_lines :
    let options : Options := {}
    let single : Options := { path := some "./a.py" }
    let file : Path := { parts := ["a.py"] }
    let content : Content := .bytes "x = 1\ny = 2".toUTF8
    ∃ scanner, Sweeps twoLines options .default twoLines.disk scanner ∧ twoLines.disk.Distinct ∧
      twoLines.disk.Named ∧ ⟨["a.py"], .file content⟩ ∈ scanner.files twoLines.disk ∧
      single.target twoLines.folder = (options.target twoLines.folder).join file ∧
      twoLines.disk.read (single.target twoLines.folder) = .ok content ∧
      single.chunkSize = options.chunkSize ∧ single.maxLines = options.maxLines ∧
      hasNull (single.path.getD "") = false ∧ hasNull (single.output.getD "") = false ∧
      twoLines.interrupted = false ∧ (runOptions twoLines single).exitCode = 0 ∧
      ∃ folder tokens, ∃ c : Console, runOptions twoLines options = reportFolder twoLines options folder tokens c ∧
        ∃ entry ∈ folder.perFile.toList, entry.filename = "a.py" := by
  intro options single file content
  obtain ⟨scanner, hsweeps, hfiles⟩ :=
    exists_sweeps_twoLines options .default rfl rfl rfl rfl
  have hfound : ⟨["a.py"], .file content⟩ ∈ scanner.files twoLines.disk := by
    rw [hfiles]
    exact List.mem_singleton_self _
  have htarget : single.target twoLines.folder = (options.target twoLines.folder).join file := by decide
  have hread : twoLines.disk.read (single.target twoLines.folder) = .ok content := by
    rw [htarget]
    rfl
  have hzero : (runOptions twoLines single).exitCode = 0 := by decide +kernel
  obtain ⟨-, folder, tokens, c, hrun, hiff, -⟩ :=
    single_run_agrees twoLines options single .default _ scanner _ content hsweeps distinct_twoLines named_twoLines
      hfound htarget hread rfl rfl (by decide) (by decide) rfl
  exact ⟨scanner, hsweeps, distinct_twoLines, named_twoLines, hfound, htarget, hread, rfl, rfl, by decide, by decide,
    rfl, hzero, folder, tokens, c, hrun, hiff.mp hzero⟩

end Agreement

end Command

end LineCensus
