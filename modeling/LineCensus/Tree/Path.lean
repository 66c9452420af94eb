import LineCensus.Text.Blank

/-! File paths with slashes. -/
namespace LineCensus

structure Path where
  root : String := ""
  parts : List String
deriving DecidableEq, Repr

namespace Path

def top : Path := { root := "/", parts := [] }

/-- Reads a path. Empty parts and single dots say nothing. A path starts with one slash, unless it
is written with exactly two. -/
def ofString (text : String) : Path where
  root := match (text.toList.takeWhile (· == '/')).length with
    | 0 => ""
    | 2 => "//"
    | _ => "/"
  parts := ((Text.splitAt '/' text.toList).map String.ofList).filter fun part =>
    !part.isEmpty && part != "."

def toString (path : Path) : String :=
  let text := path.root ++ "/".intercalate path.parts
  if text.isEmpty then "." else text

def name (path : Path) : String :=
  path.parts.getLast?.getD ""

def isAbsolute (path : Path) : Bool :=
  !path.root.isEmpty

def join (folder path : Path) : Path :=
  if path.isAbsolute then path else { folder with parts := folder.parts ++ path.parts }

def stepInto (parts : List String) (part : String) : List String :=
  if part == ".." then parts.dropLast else parts ++ [part]

/-- The place that an absolute path names: from one slash on, without two dots. -/
def collapse (path : Path) : Path where
  root := "/"
  parts := path.parts.foldl stepInto []

end Path

/-- The ending of a file name from its last dot on. A dot at the start or at the end has none. -/
def suffixOf (name : String) : List Char :=
  let ending := (name.toList.reverse.takeWhile (· != '.')).reverse
  if ending.isEmpty || name.length ≤ ending.length + 1 then [] else '.' :: ending

end LineCensus
