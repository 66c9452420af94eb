import LineCensus.Declaration.Indented
import LineCensus.Declaration.Script
import LineCensus.Declaration.Typed
import LineCensus.Line
import LineCensus.Text.LowerCase

/-! Languages: their file extensions, their comments, and the estimate of their declarations. -/
namespace LineCensus

/-- The extension of a file name in lower case: from the last dot of the part behind the last slash
or backslash. A name without a dot, or with one only at its end, has none. -/
def extensionOf? (filename : String) : Option String :=
  let path := filename.toList.map fun c => if c == '\\' then '/' else c
  let base := Text.afterLast '/' path
  let ending := Text.afterLast '.' base
  if base.contains '.' && !ending.isEmpty then some (String.ofList (Text.lower ('.' :: ending)))
  else none

structure Language where
  name : String
  extensions : List String
  delimiters : Delimiters
  heuristic : Declaration.Heuristic

namespace Language

def ofExtensions (name : String) (extensions : List String) (delimiters : Delimiters)
    (heuristic : Declaration.Heuristic) : Language where
  name
  extensions := extensions.map fun extension => String.ofList (Text.lower extension.toList)
  delimiters
  heuristic

/-- An estimate of the variables that a line outside block comments declares. A comment at the end of
the line is left out. -/
def countVariables (language : Language) (line : List Char) : Nat :=
  let text := Text.trim line
  if text.isEmpty || Text.startsWith language.delimiters.line text then 0
  else language.heuristic.count (Text.upTo language.delimiters.line text)

/-- The result of a line that begins in a region, and the region after it. Only code declares. -/
def readLine (language : Language) (region : Region) (line : List Char) : LineResult × Region :=
  let (kind, region) := language.delimiters.classify region line
  let declared := if kind = .code then language.countVariables line else 0
  (⟨kind, declared⟩, region)

def slashes : Delimiters := .ofStrings "//" "/*" "*/"

def hashes : Delimiters := .ofStrings "#" "\"\"\"" "\"\"\""

def builtin : List Language := [
  ofExtensions "Java" [".java"] slashes Declaration.typed,
  ofExtensions "Python" [".py", ".pyw"] hashes Declaration.indented,
  ofExtensions "JavaScript" [".js", ".jsx", ".mjs", ".cjs"] slashes Declaration.script,
  ofExtensions "TypeScript" [".ts", ".tsx"] slashes Declaration.script,
  ofExtensions "C#" [".cs"] slashes Declaration.typed,
  ofExtensions "C++" [".cpp", ".cc", ".cxx", ".h", ".hpp"] slashes Declaration.typed,
  ofExtensions "C" [".c"] slashes Declaration.typed]

end Language

end LineCensus
