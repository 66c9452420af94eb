import LineCensus.Analysis.File

/-! The analysis of many files: one after another, each on its own, and a file without a result never
ends the run. -/
namespace LineCensus

open Numeric (Binary64)

inductive Load where
  | text (content : List Char)
  | unreadable (reason : String)
  | refused (e : AnalysisError)
  | fault (message : String)

structure Source where
  name : String
  relPath : String := ""
  load : Load

/-- The name of a source in reports: its path in the folder if it has one. -/
def Source.displayName (source : Source) : String :=
  if source.relPath.isEmpty then source.name else source.relPath

inductive Interruption where
  | cancelled (filename : String)
  | fault (message : String)
deriving DecidableEq, Repr

inductive FolderEvent where
  | loaded (source : Source)
  | skipped (file : SkippedFile)
  | counted (entry : FileEntry)
  | progress (percent : Binary64)

structure Survey where
  folder : Folder := {}
  events : Array FolderEvent := #[]
  asked : Nat := 0

structure FolderRun where
  outcome : Except Interruption Folder
  events : Array FolderEvent
  asked : Nat

namespace Survey

def note (survey : Survey) (event : FolderEvent) : Survey :=
  { survey with events := survey.events.push event }

/-- Leaves out a file for the given reason, unless that is a request to stop. -/
def refuse (survey : Survey) (filename : String) : AnalysisError → Except Interruption Unit × Survey
  | .cancelled name => (.error (.cancelled name), survey)
  | e =>
    let file : SkippedFile := ⟨filename, e.text⟩
    (.ok (), { survey with folder := survey.folder.skip file.filename file.reason }.note (.skipped file))

def count (survey : Survey) (entry : FileEntry) : Survey :=
  { survey with folder := survey.folder.add entry }.note (.counted entry)

end Survey

namespace Analyzer

/-- Analyses one source. It is loaded only if its name has a language. -/
def readSource (a : Analyzer) (answers : Option Answers) (survey : Survey) (source : Source) :
    Except Interruption Unit × Survey :=
  let name := source.displayName
  match a.language source.name with
  | .error e => survey.refuse name e
  | .ok _ =>
    let survey := survey.note (.loaded source)
    match source.load with
    | .unreadable reason => survey.refuse name (.sourceUnavailable name reason)
    | .refused e => survey.refuse name e
    | .fault message => (.error (.fault message), survey)
    | .text content =>
      let run := a.readText .cooperative answers survey.asked name content
      let survey := { survey with asked := run.asked }
      match run.outcome with
      | .error e => survey.refuse name e
      | .ok entry => (.ok (), survey.count entry)

def readSources (a : Analyzer) (answers : Option Answers) (total : Nat) :
    Nat → Survey → List Source → FolderRun
  | _, survey, [] => ⟨.ok survey.folder, survey.events, survey.asked⟩
  | done, survey, source :: rest =>
    match a.readSource answers survey source with
    | (.error interruption, survey) => ⟨.error interruption, survey.events, survey.asked⟩
    | (.ok _, survey) =>
      readSources a answers total (done + 1) (survey.note (.progress (progress (done + 1) total))) rest

def readFolder (a : Analyzer) (answers : Option Answers) (sources : List Source) : FolderRun :=
  a.readSources answers sources.length 0 {} sources

end Analyzer

def FolderRun.reported (run : FolderRun) : List Binary64 :=
  run.events.toList.filterMap fun
    | .progress percent => some percent
    | _ => none

def FolderRun.loaded (run : FolderRun) : List Source :=
  run.events.toList.filterMap fun
    | .loaded source => some source
    | _ => none

def FolderRun.skipped (run : FolderRun) : List SkippedFile :=
  run.events.toList.filterMap fun
    | .skipped file => some file
    | _ => none

end LineCensus
