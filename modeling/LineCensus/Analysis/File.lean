import LineCensus.Batch
import LineCensus.Language.Registry
import LineCensus.Settings
import LineCensus.Tally.Folder

/-! The analysis of one text: its language, its lines, and the counters of the lines. -/
namespace LineCensus

open Numeric (Binary64)

def splitLines (text : List Char) (maxLines : Int) (filename : String) :
    Except AnalysisError (List (List Char)) :=
  let lines := Text.splitAt '\n' text
  if maxLines < lines.length then .error (.inputTooLarge filename lines.length maxLines "lines")
  else .ok lines

structure Analyzer where
  registry : Registry := .builtin
  settings : Settings := .default

structure FileRun where
  outcome : Except AnalysisError FileEntry
  progress : List Binary64 := []
  asked : Nat

namespace Analyzer

def language (a : Analyzer) (filename : String) : Except AnalysisError Language :=
  match a.registry.resolve? filename with
  | none => .error (.unsupportedLanguage filename)
  | some language => .ok language

/-- The language and the lines of a text. The name is judged before the length. -/
def prepare (a : Analyzer) (filename : String) (text : List Char) :
    Except AnalysisError (Language × List (List Char)) := do
  let language ← a.language filename
  let lines ← splitLines text a.settings.maxLines filename
  return (language, lines)

/-- Analyses one text, from a fresh state. `asked` questions have been asked before. -/
def readText (a : Analyzer) (pace : Batch.Pace) (answers : Option Answers) (asked : Nat)
    (filename : String) (text : List Char) : FileRun :=
  match a.prepare filename text with
  | .error e => { outcome := .error e, asked }
  | .ok (language, lines) =>
    let work := Batch.run a.settings.chunkSize language.readLine pace answers asked .normal lines
    let outcome :=
      if work.stopped then .error (.cancelled "")
      else .ok ⟨filename, language.name, .ofResults work.flatResults⟩
    { outcome, progress := work.reported, asked := work.asked }

end Analyzer

end LineCensus
