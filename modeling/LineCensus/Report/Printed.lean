import LineCensus.Report.FileSize
import LineCensus.Report.Layout
import LineCensus.Tally.Folder

/-! Reports for people: of one file, of a folder, and of the work in progress. -/
namespace LineCensus.Report

open Numeric (Binary64)

/-- The label and the percentage of the work, over what the line showed before. Complete work ends
the line. -/
def progressLine (label : String) (percent : Binary64) : String :=
  "\r" ++ label ++ ": " ++ right 5 (percent.fixed 1) ++ "%" ++
    if percent.atLeast 100 then "\n" else ""

def shareRow (kind : String) (lines : Int) (share : Binary64) : String :=
  row [left 10 kind, right 8 (toString lines), right 6 (share.fixed 1) ++ "%"]

def ofFile (entry : FileEntry) (bytes tokens : Option Int) : Except NumberError String := do
  let stats := entry.stats
  let blank ← stats.blankRatio
  let comment ← stats.commentRatio
  let code ← stats.codeDensity
  let perLine ← stats.variablesPerLine
  let size ← bytes.mapM fileSize
  return unlines ([
    "",
    "--- " ++ entry.filename ++ " (" ++ entry.language ++ ") ---",
    row [left 10 "Kind", right 8 "Lines", right 7 "Share"],
    ruler 32,
    shareRow "Blank" stats.blank blank,
    shareRow "Comment" stats.comment comment,
    shareRow "Code" stats.code code,
    ruler 32,
    "Total lines:        " ++ toString stats.total,
    "Variables:          " ++ toString stats.declared,
    "Variables per line: " ++ perLine.fixed 2]
    ++ (size.map fun size => "File size:          " ++ size).toList
    ++ (tokens.map fun tokens => "Tokens (est.):      " ++ toString tokens).toList)

/-- The files with the most lines of code, at most `top` of them; equals keep their order. -/
def largest (folder : Folder) (top : Int) : List FileEntry :=
  (folder.perFile.toList.mergeSort fun a b => decide (b.stats.code ≤ a.stats.code)).take top.toNat

def topFiles (entries : List FileEntry) (tokens : List (String × Int)) : List String :=
  let line (rank code vars : String) (count : String) (name : String) : String :=
    row ([left 5 rank, left 8 code, left 6 vars] ++
      (if tokens.isEmpty then [] else [left 8 count]) ++ [name])
  ["", "--- Top " ++ toString entries.length ++ " Files (Code Lines) ---",
    line "Rank" "Code" "Vars" "Tokens" "File Path", ruler 60] ++
  entries.zipIdx.map fun (e, i) =>
    line (toString (i + 1)) (toString e.stats.code) (toString e.stats.declared)
      (toString ((tokens.lookup e.filename).getD 0)) e.filename

def overview (folder : Folder) : Except NumberError String := do
  let code ← folder.codeDensity
  let comment ← folder.commentRatio
  let perLine ← folder.variablesPerLine
  let average ← folder.averageLines
  let languages := ", ".intercalate
    (folder.languages.map fun (name, files) => name ++ " (" ++ toString files ++ " files)")
  let line (name files blank comment code vars : String) : String :=
    row [left 12 name, right 5 files, right 8 blank, right 8 comment, right 8 code, right 6 vars]
  return unlines ([
    "",
    "--- Folder Analysis ---",
    "Languages:   " ++ (if languages.isEmpty then "-" else languages),
    "Total files: " ++ toString folder.totalFiles,
    "Total lines: " ++ Text.grouped folder.totalLines,
    ruler 60,
    line "Language" "Files" "Blank" "Comment" "Code" "Vars",
    ruler 60]
    ++ folder.perLanguage.map (fun (name, l) =>
      line name (toString l.files) (toString l.stats.blank) (toString l.stats.comment)
        (toString l.stats.code) (toString l.stats.declared))
    ++ [
    ruler 60,
    "Code density:           " ++ code.fixed 1 ++ "%",
    "Comment ratio:          " ++ comment.fixed 1 ++ "%",
    "Variables per line:     " ++ perLine.fixed 2,
    "Average lines per file: " ++ average.fixed 1])

def fileLists (folder : Folder) (top : Int) (tokens : List (String × Int)) : String :=
  unlines ((if folder.perFile.isEmpty || top ≤ 0 then [] else topFiles (largest folder top) tokens)
    ++ (if folder.skipped.isEmpty then [] else
      ["", "Skipped " ++ toString folder.skipped.size ++ " file(s):"] ++
        folder.skipped.toList.map fun s => "  " ++ s.filename ++ ": " ++ s.reason))

def ofFolder (folder : Folder) (top : Int) (tokens : List (String × Int)) :
    Except NumberError String := do
  return (← overview folder) ++ fileLists folder top tokens

end LineCensus.Report
