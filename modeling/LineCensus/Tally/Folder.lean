import LineCensus.Tally.Stats

/-! Counters of a folder, built up file by file. -/
namespace LineCensus

structure FileEntry where
  filename : String
  language : String
  stats : Stats
deriving DecidableEq, Repr

structure SkippedFile where
  filename : String
  reason : String
deriving DecidableEq, Repr

structure LanguageStats where
  stats : Stats := {}
  files : Nat := 0
deriving DecidableEq, Repr

def LanguageStats.count (l : LanguageStats) (stats : Stats) : LanguageStats :=
  ⟨l.stats + stats, l.files + 1⟩

/-- The counters of a folder. Languages stand in the order of their first file. -/
structure Folder where
  totalFiles : Nat := 0
  totalLines : Int := 0
  blank : Int := 0
  comment : Int := 0
  code : Int := 0
  declared : Int := 0
  perLanguage : List (String × LanguageStats) := []
  perFile : Array FileEntry := #[]
  skipped : Array SkippedFile := #[]
deriving DecidableEq, Repr

namespace Folder

/-- Counts one more file of a language; a new language goes to the end. -/
def countLanguage (name : String) (stats : Stats) :
    List (String × LanguageStats) → List (String × LanguageStats)
  | [] => [(name, LanguageStats.count {} stats)]
  | (other, l) :: rest =>
    if other = name then (other, l.count stats) :: rest
    else (other, l) :: countLanguage name stats rest

def add (folder : Folder) (entry : FileEntry) : Folder where
  totalFiles := folder.totalFiles + 1
  totalLines := folder.totalLines + entry.stats.total
  blank := folder.blank + entry.stats.blank
  comment := folder.comment + entry.stats.comment
  code := folder.code + entry.stats.code
  declared := folder.declared + entry.stats.declared
  perLanguage := countLanguage entry.language entry.stats folder.perLanguage
  perFile := folder.perFile.push entry
  skipped := folder.skipped

def skip (folder : Folder) (filename reason : String) : Folder :=
  { folder with skipped := folder.skipped.push ⟨filename, reason⟩ }

def ofEntries (entries : List FileEntry) : Folder :=
  entries.foldl add {}

def languages (folder : Folder) : List (String × Nat) :=
  folder.perLanguage.map fun (name, l) => (name, l.files)

def codeDensity (f : Folder) : Except NumberError Numeric.Binary64 := percentage f.code f.totalLines

def commentRatio (f : Folder) : Except NumberError Numeric.Binary64 :=
  percentage f.comment f.totalLines

def blankRatio (f : Folder) : Except NumberError Numeric.Binary64 := percentage f.blank f.totalLines

def variablesPerLine (f : Folder) : Except NumberError Numeric.Binary64 :=
  ratio f.declared f.totalLines

def averageLines (f : Folder) : Except NumberError Numeric.Binary64 := ratio f.totalLines f.totalFiles

end Folder

def SkippedFile.warning (s : SkippedFile) : String :=
  "Skipping " ++ s.filename ++ " (" ++ s.reason ++ ")"

end LineCensus
