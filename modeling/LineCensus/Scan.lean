import LineCensus.Analysis.Folder
import LineCensus.Ignore.Spec
import LineCensus.Tree.Walk

/-! The sources of a tree: the files of known languages that are not ignored. -/
namespace LineCensus

def maxFileBytes : Nat := 50 * 1024 * 1024

def probeBytes : Nat := 1024

/-- Reads the file that an absolute path leads to as text with line feeds at its line ends. A file of
more than `maxBytes` bytes is refused before it is read. -/
def readSource (disk : Node) (path : Path) (displayName : String) (maxBytes : Int) :
    Except AnalysisError (List Char) :=
  match disk.read path with
  | .error fault => .error (.sourceUnavailable displayName (fault.message path.toString))
  | .ok content =>
    if maxBytes < content.size then
      .error (.inputTooLarge displayName content.size maxBytes "bytes")
    else match Text.Utf8.decode content.toList with
      | .error e => .error (.sourceUnavailable displayName e.message)
      | .ok text => .ok (Text.normalizeNewlines text)

structure Scanner where
  spec : Ignore.Spec
  registry : Registry := .builtin
  extensions : Option (List String) := none
  maxBytes : Int := maxFileBytes

namespace Scanner

/-- Whether the name of a file has a language, and one of the extensions asked for. An empty list of
them asks for nothing in particular. -/
def wants (s : Scanner) (name : String) : Bool :=
  s.registry.isSupported name &&
    match s.extensions with
    | none => true
    | some extensions =>
      extensions.isEmpty ||
        extensions.any fun extension => Text.lower extension.toList == Text.lower (suffixOf name)

/-- Whether a file looks like anything but text. One that cannot be opened does not. -/
def isBinary : Node → Bool
  | .file content => (content.take probeBytes).contains 0
  | _ => false

def prunes (s : Scanner) (path : List String) : Bool :=
  s.spec.ignores { parts := path } true

def keeps (s : Scanner) (found : Found) : Bool :=
  !s.spec.ignores { parts := found.path } false && s.wants (found.path.getLast?.getD "") &&
    !isBinary found.node

def files (s : Scanner) (tree : Node) : List Found :=
  (tree.walk s.prunes []).filter s.keeps

def source (s : Scanner) (disk : Node) (root : Path) (found : Found) : Source :=
  let path : Path := { parts := found.path }
  let relPath := path.toString
  { name := path.name
    relPath
    load := match readSource disk (root.join path) relPath s.maxBytes with
      | .ok text => .text text
      | .error e => .refused e }

def sources (s : Scanner) (disk : Node) (root : Path) : List Source :=
  match disk.find? root.parts with
  | none => []
  | some tree => (s.files tree).map (s.source disk root)

end Scanner

/-- The extensions named in a comma list: with one dot in front, and in lower case. Nothing, and an
asterisk, stand for every extension. -/
def parseExtensions (text : List Char) : Option (List String) :=
  let text := Text.trim text
  if text == ['*'] || text.isEmpty then none
  else
    let items := (Text.splitAt ',' text).map Text.trim
    some ((items.filter (!·.isEmpty)).map fun item =>
      String.ofList ('.' :: Text.lower (item.dropWhile (· == '.'))))

end LineCensus
