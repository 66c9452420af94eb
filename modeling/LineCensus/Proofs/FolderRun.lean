import LineCensus.Analysis.Folder
import LineCensus.Proofs.LineTotals

/-! A run over many sources against the sources one by one: each is settled once, in its turn, with what
it comes to alone. -/
namespace LineCensus

def AnalysisError.isRequest : AnalysisError → Bool
  | .cancelled _ => true
  | _ => false

def Load.isOrdinary : Load → Bool
  | .text _ => true
  | .unreadable _ => true
  | .refused e => !e.isRequest
  | .fault _ => false

/-- What a source comes to alone, whatever stands around it: the first error, or the entry of its text
read at once from a fresh state. -/
inductive Analyzer.Alone (a : Analyzer) (source : Source) : Except AnalysisError FileEntry → Prop where
  | unsupported (hname : a.registry.isSupported source.name = false) :
    Alone a source (.error (.unsupportedLanguage source.name))
  | unreadable {reason : String} (hname : a.registry.isSupported source.name = true)
    (hload : source.load = .unreadable reason) :
    Alone a source (.error (.sourceUnavailable source.displayName reason))
  | refused {e : AnalysisError} (hname : a.registry.isSupported source.name = true)
    (hload : source.load = .refused e) : Alone a source (.error e)
  | text {content : List Char} (hname : a.registry.isSupported source.name = true)
    (hload : source.load = .text content) :
    Alone a source (a.readText .immediate none 0 source.displayName content).outcome

/-- Why a source ends a run in its turn before its text is looked at: it is loaded, and its loader asks to stop
or fails in a way that no file accounts for. -/
def Analyzer.interruption? (a : Analyzer) (source : Source) : Option Interruption :=
  match a.registry.isSupported source.name, source.load with
  | true, .refused (.cancelled name) => some (.cancelled name)
  | true, .fault message => some (.fault message)
  | _, _ => none

def Analyzer.textPauses (a : Analyzer) (filename : String) (text : List Char) : Nat :=
  if a.registry.isSupported filename = true ∧ text.count '\n' + 1 ≤ a.settings.maxLines then
    Batch.count a.settings.chunkSize (text.count '\n' + 1) - 1
  else 0

def Analyzer.pauses (a : Analyzer) (source : Source) : Nat :=
  match a.registry.isSupported source.name, source.load with
  | true, .text content => a.textPauses source.displayName content
  | _, _ => 0

def Folder.settle (folder : Folder) (source : Source) : Except AnalysisError FileEntry → Folder
  | .ok entry => folder.add entry
  | .error e => folder.skip source.displayName e.text

def Analyzer.settleEvents (a : Analyzer) (source : Source) (result : Except AnalysisError FileEntry) :
    List FolderEvent :=
  (if a.registry.isSupported source.name then [.loaded source] else []) ++
    match result with
    | .ok entry => [.counted entry]
    | .error e => [.skipped ⟨source.displayName, e.text⟩]

def Analyzer.runEvents (a : Analyzer) (total done : Nat)
    (settled : List (Source × Except AnalysisError FileEntry)) : List FolderEvent :=
  (settled.zipIdx done).flatMap fun ((source, result), i) =>
    a.settleEvents source result ++ [.progress (progress (i + 1) total)]

def Source.skipped? (source : Source) : Except AnalysisError FileEntry → Option SkippedFile
  | .ok _ => none
  | .error e => some ⟨source.displayName, e.text⟩

def Folder.settleAll (folder : Folder) (settled : List (Source × Except AnalysisError FileEntry)) :
    Folder :=
  settled.foldl (fun folder (source, result) => folder.settle source result) folder

namespace Folder

variable (folder : Folder) (settled : List (Source × Except AnalysisError FileEntry))

theorem settleAll_cons (source : Source) (result : Except AnalysisError FileEntry) :
    folder.settleAll ((source, result) :: settled) = (folder.settle source result).settleAll settled :=
  rfl

theorem perFile_settleAll :
    (folder.settleAll settled).perFile.toList =
      folder.perFile.toList ++ settled.filterMap (·.2.toOption) := by
  induction settled generalizing folder with
  | nil => simp [settleAll]
  | cons pair rest ih =>
    rw [settleAll_cons, ih]
    cases hresult : pair.2 <;> simp [hresult, settle, add, skip, Except.toOption]

theorem skipped_settleAll :
    (folder.settleAll settled).skipped.toList =
      folder.skipped.toList ++ settled.filterMap fun (source, result) => source.skipped? result := by
  induction settled generalizing folder with
  | nil => simp [settleAll]
  | cons pair rest ih =>
    rw [settleAll_cons, ih]
    cases hresult : pair.2 <;> simp [hresult, settle, add, skip, Source.skipped?]

/-- Every source stands in one of the two lists and in no more than one. -/
theorem size_settleAll :
    (folder.settleAll settled).perFile.size + (folder.settleAll settled).skipped.size =
      folder.perFile.size + folder.skipped.size + settled.length := by
  induction settled generalizing folder with
  | nil => simp [settleAll]
  | cons pair rest ih =>
    rw [settleAll_cons, ih, List.length_cons]
    cases pair.2 <;> simp only [settle, add, skip, Array.size_push] <;> omega

end Folder

namespace Analyzer

variable {a : Analyzer} {answers : Option Answers}

/-- A source alone has an entry exactly if its name has a language, it loads a text, and that text read
at once has this entry. -/
theorem alone_ok_iff {source : Source} {entry : FileEntry} :
    a.Alone source (.ok entry) ↔ a.registry.isSupported source.name = true ∧
      ∃ content, source.load = .text content ∧
        (a.readText .immediate none 0 source.displayName content).outcome = .ok entry := by
  constructor
  · intro h
    generalize hresult : Except.ok entry = result at h
    cases h with
    | unsupported | unreadable | refused => cases hresult
    | text hname hload => exact ⟨hname, _, hload, rfl⟩
  · rintro ⟨hname, content, hload, hentry⟩
    exact hentry ▸ .text hname hload

/-- A source alone comes to one result only. -/
theorem Alone.unique {source : Source} {result other : Except AnalysisError FileEntry}
    (h : a.Alone source result) (h' : a.Alone source other) : result = other := by
  cases h <;> cases h' <;> simp_all

theorem language_eq_error {filename : String} (hname : a.registry.isSupported filename = false) :
    a.language filename = .error (.unsupportedLanguage filename) := by
  have hnone : a.registry.resolve? filename = none := by
    simpa [Registry.isSupported] using hname
  rw [language, hnone]

theorem language_eq_ok {filename : String} (hname : a.registry.isSupported filename = true) :
    ∃ language, a.registry.resolve? filename = some language ∧ a.language filename = .ok language := by
  obtain ⟨language, h⟩ := Option.isSome_iff_exists.mp hname
  exact ⟨language, h, by rw [Analyzer.language, h]⟩

/-- The errors of judging a text by its name and its length. -/
theorem prepare_cases (filename : String) (text : List Char) :
    (∃ e, a.prepare filename text = .error e ∧ e.isRequest = false) ∨
      ∃ language, a.registry.resolve? filename = some language ∧
        text.count '\n' + 1 ≤ a.settings.maxLines := by
  cases hname : a.registry.resolve? filename with
  | none =>
    refine .inl ⟨.unsupportedLanguage filename, ?_, rfl⟩
    simp only [prepare_eq, hname]
  | some language =>
    by_cases hfit : text.count '\n' + 1 ≤ a.settings.maxLines
    · exact .inr ⟨language, rfl, hfit⟩
    · refine .inl ⟨.inputTooLarge filename ↑(text.count '\n' + 1) a.settings.maxLines "lines", ?_, rfl⟩
      simp only [prepare_eq, hname, if_pos (Nat.lt_of_not_le hfit)]

/-- If no pause of a text is answered with stop, it comes to the same at either pace, to no request to stop,
and one question is asked in each pause. -/
theorem readText_cooperative {asked : Nat} (filename : String) (text : List Char)
    (hgo : ∀ i < a.textPauses filename text, Batch.stopsAt .cooperative answers (asked + i) = false) :
    (a.readText .cooperative answers asked filename text).outcome =
        (a.readText .immediate none 0 filename text).outcome ∧
      (a.readText .cooperative answers asked filename text).asked =
        asked + Batch.questions .cooperative answers (a.textPauses filename text) ∧
      ∀ e, (a.readText .immediate none 0 filename text).outcome = .error e → e.isRequest = false := by
  by_cases hfit : a.registry.isSupported filename = true ∧ text.count '\n' + 1 ≤ a.settings.maxLines
  · obtain ⟨language, hname⟩ := Option.isSome_iff_exists.mp hfit.1
    rw [textPauses, if_pos hfit] at hgo ⊢
    obtain ⟨houtcome, hasked⟩ := readText_unstopped .cooperative asked hname hfit.2 fun i hi =>
      hgo i (by omega)
    rw [houtcome, outcome_readText .immediate 0 hname hfit.2 fun _ => rfl]
    refine ⟨rfl, hasked, ?_⟩
    intro e h
    cases h
  · rcases prepare_cases (a := a) filename text with ⟨e, he, hrequest⟩ | ⟨language, hname, hlines⟩
    · rw [textPauses, if_neg hfit, Batch.questions_zero]
      simp only [readText, he, true_and, Nat.add_zero]
      rintro _ ⟨⟩
      exact hrequest
    · exact absurd ⟨Option.isSome_iff_exists.mpr ⟨language, hname⟩, hlines⟩ hfit

private theorem interruption?_of_isOrdinary {source : Source} (h : source.load.isOrdinary = true) :
    a.interruption? source = none := by
  cases hname : a.registry.isSupported source.name with
  | false => simp only [interruption?, hname]
  | true =>
    cases hload : source.load with
    | text | unreadable => simp only [interruption?, hname, hload]
    | fault message => simp [hload, Load.isOrdinary] at h
    | refused e =>
      cases e with
      | cancelled name => simp [hload, Load.isOrdinary, AnalysisError.isRequest] at h
      | _ => simp only [interruption?, hname, hload]

private theorem refuse_eq (survey : Survey) (source : Source) {e : AnalysisError} (he : e.isRequest = false) :
    survey.refuse source.displayName e = (.ok (),
      { survey with
        folder := survey.folder.settle source (.error e)
        events := survey.events.push (.skipped ⟨source.displayName, e.text⟩) }) := by
  cases e with
  | cancelled name => exact absurd he (by simp [AnalysisError.isRequest])
  | _ => rfl

private theorem push_push {α : Type} (events : Array α) (x y : α) :
    (events.push x).push y = events ++ [x, y].toArray :=
  Array.ext' (by simp)

/-- A source that does not end the run in its turn, and in no pause of which the answer is to stop, is settled
with what it comes to alone. -/
theorem readSource_alone (survey : Survey) {source : Source}
    (hgo : ∀ i < a.pauses source, Batch.stopsAt .cooperative answers (survey.asked + i) = false)
    (hload : a.interruption? source = none) :
    ∃ result, a.Alone source result ∧
      a.readSource answers survey source = (.ok (),
        { folder := survey.folder.settle source result
          events := survey.events ++ (a.settleEvents source result).toArray
          asked := survey.asked + Batch.questions .cooperative answers (a.pauses source) }) := by
  cases hname : a.registry.isSupported source.name with
  | false =>
    have hrequest : (AnalysisError.unsupportedLanguage source.name).isRequest = false := rfl
    have hpauses : a.pauses source = 0 := by simp only [pauses, hname]
    refine ⟨_, .unsupported hname, ?_⟩
    simp only [readSource, language_eq_error hname, refuse_eq survey source hrequest, settleEvents,
      hname, hpauses, Batch.questions_zero]
    rfl
  | true =>
    obtain ⟨language, -, hlanguage⟩ := language_eq_ok hname
    cases hsource : source.load with
    | unreadable reason =>
      have hrequest : (AnalysisError.sourceUnavailable source.displayName reason).isRequest = false := rfl
      have hpauses : a.pauses source = 0 := by simp only [pauses, hname, hsource]
      refine ⟨_, .unreadable hname hsource, ?_⟩
      simp only [readSource, hlanguage, hsource, refuse_eq _ source hrequest, settleEvents, hname,
        Survey.note, push_push, hpauses, Batch.questions_zero]
      rfl
    | refused e =>
      have hrequest : e.isRequest = false := by
        cases e with
        | cancelled name => simp [interruption?, hname, hsource] at hload
        | _ => rfl
      have hpauses : a.pauses source = 0 := by simp only [pauses, hname, hsource]
      refine ⟨_, .refused hname hsource, ?_⟩
      simp only [readSource, hlanguage, hsource, refuse_eq _ source hrequest, settleEvents, hname,
        Survey.note, push_push, hpauses, Batch.questions_zero]
      rfl
    | fault message => simp [interruption?, hname, hsource] at hload
    | text content =>
      have hpauses : a.pauses source = a.textPauses source.displayName content := by
        simp only [pauses, hname, hsource]
      rw [hpauses] at hgo ⊢
      obtain ⟨houtcome, hasked, hrequest⟩ := readText_cooperative source.displayName content hgo
      refine ⟨_, .text hname hsource, ?_⟩
      cases hresult : (a.readText .immediate none 0 source.displayName content).outcome with
      | error e =>
        rw [hresult] at houtcome
        simp only [readSource, hlanguage, hsource, Survey.note, houtcome, hasked,
          refuse_eq _ source (hrequest e hresult), settleEvents, hname, push_push]
        rfl
      | ok entry =>
        rw [hresult] at houtcome
        simp only [readSource, hlanguage, hsource, Survey.note, houtcome, hasked, Survey.count,
          settleEvents, hname, push_push]
        rfl

private theorem readSources_alone (hgo : ∀ n, Batch.stopsAt .cooperative answers n = false) (total done : Nat)
    (survey : Survey) {sources : List Source}
    (hload : ∀ source ∈ sources, source.load.isOrdinary = true) :
    ∃ results asked, List.Forall₂ a.Alone sources results ∧
      a.readSources answers total done survey sources =
        { outcome := .ok (survey.folder.settleAll (sources.zip results))
          events := survey.events ++ (a.runEvents total done (sources.zip results)).toArray
          asked } := by
  induction sources generalizing done survey with
  | nil => exact ⟨[], survey.asked, .nil, by simp [readSources, Folder.settleAll, runEvents]⟩
  | cons source rest ih =>
    obtain ⟨result, halone, hsource⟩ := readSource_alone (a := a) survey (fun i _ => hgo (survey.asked + i))
      (interruption?_of_isOrdinary (hload source (List.mem_cons_self ..)))
    obtain ⟨results, last, hrest, hrun⟩ :=
      ih (done + 1) (Survey.note _ (.progress (progress (done + 1) total)))
        (fun s hs => hload s (List.mem_cons_of_mem _ hs))
    refine ⟨result :: results, last, .cons halone hrest, ?_⟩
    rw [readSources, hsource]
    refine hrun.trans ?_
    simp only [Survey.note, List.zip_cons_cons, Folder.settleAll_cons, runEvents, List.zipIdx_cons,
      List.flatMap_cons, FolderRun.mk.injEq, true_and, and_true]
    exact Array.ext' (by simp)

theorem loaded_settleEvents (source : Source) (result : Except AnalysisError FileEntry) :
    ((a.settleEvents source result).filterMap fun
      | .loaded source => some source
      | _ => none) = if a.registry.isSupported source.name then [source] else [] := by
  cases result <;> simp only [settleEvents] <;> split <;> rfl

private theorem loaded_runEvents (total done : Nat)
    (settled : List (Source × Except AnalysisError FileEntry)) :
    ((a.runEvents total done settled).filterMap fun
      | .loaded source => some source
      | _ => none) = (settled.map (·.1)).filter (a.registry.isSupported ·.name) := by
  induction settled generalizing done with
  | nil => rfl
  | cons pair rest ih =>
    obtain ⟨source, result⟩ := pair
    have hrest := ih (done + 1)
    rw [runEvents] at hrest ⊢
    rw [List.zipIdx_cons, List.flatMap_cons, List.filterMap_append, hrest, List.filterMap_append,
      loaded_settleEvents, List.map_cons, List.filter_cons]
    split <;> rfl

private theorem skipped_runEvents (total done : Nat) (settled : List (Source × Except AnalysisError FileEntry)) :
    ((a.runEvents total done settled).filterMap fun
      | .skipped file => some file
      | _ => none) = settled.filterMap fun (source, result) => source.skipped? result := by
  induction settled generalizing done with
  | nil => rfl
  | cons pair rest ih =>
    obtain ⟨source, result⟩ := pair
    have hrest := ih (done + 1)
    rw [runEvents] at hrest ⊢
    rw [List.zipIdx_cons, List.flatMap_cons, List.filterMap_append, hrest]
    cases result <;> simp only [settleEvents] <;> split <;> rfl

/-- A run over ordinary sources settles each of them with what it comes to alone, and loads those whose names have a
language. -/
theorem exists_readFolder (hgo : ∀ n, Batch.stopsAt .cooperative answers n = false) {sources : List Source}
    (hload : ∀ source ∈ sources, source.load.isOrdinary = true) :
    ∃ results, List.Forall₂ a.Alone sources results ∧ (sources.zip results).map (·.1) = sources ∧
      (a.readFolder answers sources).outcome = .ok (({} : Folder).settleAll (sources.zip results)) ∧
      (a.readFolder answers sources).events.toList = a.runEvents sources.length 0 (sources.zip results) ∧
      (a.readFolder answers sources).loaded = sources.filter (a.registry.isSupported ·.name) := by
  obtain ⟨results, asked, halone, hrun⟩ := readSources_alone (a := a) hgo sources.length 0 {} hload
  have hrun : a.readFolder answers sources = _ := hrun
  have hsources : (sources.zip results).map (·.1) = sources := List.map_fst_zip halone.length_eq.le
  have hevents : (a.readFolder answers sources).events.toList =
      a.runEvents sources.length 0 (sources.zip results) := by
    rw [hrun]
    simp
  refine ⟨results, halone, hsources, congrArg FolderRun.outcome hrun, hevents, ?_⟩
  rw [FolderRun.loaded, hevents]
  exact (loaded_runEvents _ _ _).trans (by rw [hsources])

/-- The notices of a run are the files that its folder leaves out, in the same order. -/
theorem skipped_readFolder (hgo : ∀ n, Batch.stopsAt .cooperative answers n = false) {sources : List Source}
    (hload : ∀ source ∈ sources, source.load.isOrdinary = true) {folder : Folder}
    (h : (a.readFolder answers sources).outcome = .ok folder) :
    (a.readFolder answers sources).skipped = folder.skipped.toList := by
  obtain ⟨results, -, -, houtcome, hevents, -⟩ := exists_readFolder (a := a) hgo hload
  obtain rfl := Except.ok.inj (h.symm.trans houtcome)
  rw [FolderRun.skipped, hevents]
  exact (skipped_runEvents _ _ _).trans (Folder.skipped_settleAll {} _).symm

/-- A run over sources of which each loads a text or has an error of its own comes to a folder if no
answer is to stop. Each source is settled once and in its turn with what it comes to alone: its entry is
counted, or its first error is noted. Exactly the sources whose names have a language are loaded, each
once, and nothing happens but loading, settling, and one report behind each source. -/
theorem readFolder_settles_each_source (a : Analyzer) (answers : Option Answers) (sources : List Source)
    (hgo : ∀ n, Batch.stopsAt .cooperative answers n = false)
    (hload : ∀ source ∈ sources, source.load.isOrdinary = true) :
    ∃ folder results, (a.readFolder answers sources).outcome = .ok folder ∧
      List.Forall₂ a.Alone sources results ∧
      folder.perFile.toList = results.filterMap Except.toOption ∧
      folder.skipped.toList = (sources.zip results).filterMap
        (fun (source, result) => source.skipped? result) ∧
      folder.perFile.size + folder.skipped.size = sources.length ∧
      (a.readFolder answers sources).loaded = sources.filter (a.registry.isSupported ·.name) ∧
      (a.readFolder answers sources).events.toList =
        a.runEvents sources.length 0 (sources.zip results) := by
  obtain ⟨results, halone, -, houtcome, hevents, hloaded⟩ := exists_readFolder (a := a) hgo hload
  have hlength : sources.length = results.length := halone.length_eq
  have hresults : (sources.zip results).map (·.2) = results := List.map_snd_zip hlength.ge
  refine ⟨_, results, houtcome, halone, ?_, ?_, ?_, hloaded, hevents⟩
  · rw [Folder.perFile_settleAll]
    conv_rhs => rw [← hresults, List.filterMap_map]
    rfl
  · rw [Folder.skipped_settleAll]
    rfl
  · rw [Folder.size_settleAll, List.length_zip, ← hlength, Nat.min_self]
    exact Nat.zero_add _

/-- Five sources: a name without a language, a file that cannot be read, one that the loader refuses, one
that ends inside a block comment, and one line of code behind it that is still code. -/
theorem readFolder_settles_five_sources :
    let a : Analyzer := {}
    let sources : List Source := [
      { name := "notes.txt", load := .text "x = 1".toList },
      { name := "a.py", load := .unreadable "no such file" },
      { name := "b.py", load := .refused (.inputTooLarge "b.py" 9 8 "bytes") },
      { name := "c.py", load := .text "\"\"\"\nx = 1".toList },
      { name := "d.py", load := .text "x = 1".toList }]
    (∀ n, Batch.stopsAt .cooperative none n = false) ∧
      (∀ source ∈ sources, source.load.isOrdinary = true) ∧
      ∃ folder, (a.readFolder none sources).outcome = .ok folder ∧
        folder.perFile.toList = [
          ⟨"c.py", "Python", { comment := 2, total := 2 }⟩,
          ⟨"d.py", "Python", { code := 1, declared := 1, total := 1 }⟩] ∧
        folder.skipped.toList.map (·.filename) = ["notes.txt", "a.py", "b.py"] := by
  intro a sources
  have hgo (n : Nat) : Batch.stopsAt .cooperative none n = false := rfl
  have hload : ∀ source ∈ sources, source.load.isOrdinary = true := by decide
  obtain ⟨folder, results, hfolder, halone, hfiles, hskipped, -⟩ :=
    readFolder_settles_each_source a none sources hgo hload
  have hblock : a.Alone sources[3] (.ok ⟨"c.py", "Python", { comment := 2, total := 2 }⟩) := by
    have hname : a.registry.resolve? "c.py" = some Language.builtin[1] := rfl
    refine alone_ok_iff.mpr ⟨by decide, _, rfl, ?_⟩
    refine (outcome_readText .immediate 0 hname (by decide) fun _ => rfl).trans (congrArg Except.ok ?_)
    decide +kernel
  have hcode : a.Alone sources[4] (.ok ⟨"d.py", "Python", { code := 1, declared := 1, total := 1 }⟩) := by
    have hname : a.registry.resolve? "d.py" = some Language.builtin[1] := rfl
    refine alone_ok_iff.mpr ⟨by decide, _, rfl, ?_⟩
    refine (outcome_readText .immediate 0 hname (by decide) fun _ => rfl).trans (congrArg Except.ok ?_)
    decide +kernel
  have hresults : results = _ := Relator.RightUnique.forall₂ (fun _ _ _ h h' => h.unique h') halone
    (.cons (.unsupported (by decide)) (.cons (.unreadable (by decide) rfl)
      (.cons (.refused (by decide) rfl) (.cons hblock (.cons hcode .nil)))))
  rw [hresults] at hfiles hskipped
  exact ⟨hgo, hload, folder, hfolder, hfiles, by rw [hskipped]; rfl⟩

end Analyzer

end LineCensus
