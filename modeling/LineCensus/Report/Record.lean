import LineCensus.Tally.Folder

/-! Counters as records for machines. -/
namespace LineCensus

def Stats.fields (s : Stats) : List (String × Value) :=
  [("blank", .integer s.blank), ("comment", .integer s.comment), ("code", .integer s.code),
    ("variables", .integer s.declared), ("total", .integer s.total)]

def FileEntry.fields (e : FileEntry) : List (String × Value) :=
  ("filename", .text e.filename) :: ("language", .text e.language) :: e.stats.fields

def LanguageStats.fields (l : LanguageStats) : List (String × Value) :=
  l.stats.fields ++ [("files", .integer l.files)]

def SkippedFile.fields (s : SkippedFile) : List (String × Value) :=
  [("filename", .text s.filename), ("reason", .text s.reason)]

def Folder.fields (f : Folder) : List (String × Value) :=
  [("total_files", .integer f.totalFiles), ("total_lines", .integer f.totalLines),
    ("blank", .integer f.blank), ("comment", .integer f.comment), ("code", .integer f.code),
    ("variables", .integer f.declared),
    ("per_language", .record (f.perLanguage.map fun (name, l) => (name, .record l.fields))),
    ("per_file", .list (f.perFile.toList.map fun e => .record e.fields)),
    ("skipped", .list (f.skipped.toList.map fun s => .record s.fields))]

end LineCensus
