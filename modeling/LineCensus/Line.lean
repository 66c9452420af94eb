import LineCensus.Text.Blank
import LineCensus.Text.Search

/-! Kinds of lines, and the two-state reading that tells comments from code. -/
namespace LineCensus

inductive LineKind where
  | blank
  | comment
  | code
deriving DecidableEq, Repr

def LineKind.name : LineKind → String
  | .blank => "blank"
  | .comment => "comment"
  | .code => "code"

inductive Region where
  | normal
  | block
deriving DecidableEq, Repr

structure LineResult where
  kind : LineKind
  declared : Int := 0
deriving DecidableEq, Repr

/-- The tokens that begin a line comment, and begin and end a block comment. -/
structure Delimiters where
  line : List Char
  blockStart : List Char
  blockEnd : List Char
deriving DecidableEq, Repr

namespace Delimiters

def ofStrings (line blockStart blockEnd : String) : Delimiters :=
  ⟨line.toList, blockStart.toList, blockEnd.toList⟩

/-- The kind of a line that begins in a region, and the region after it. A blank line is blank even
inside a block. Only a line that starts with the block token opens a block, and the closing token is
looked for behind the opening one, so that equal tokens may open and close. What follows a closing
token still counts as comment. -/
def classify (d : Delimiters) (region : Region) (line : List Char) : LineKind × Region :=
  let text := Text.trim line
  if text.isEmpty then (.blank, region)
  else match region with
    | .block => (.comment, if Text.occursIn d.blockEnd text then .normal else .block)
    | .normal =>
      if Text.startsWith d.line text then (.comment, .normal)
      else if Text.startsWith d.blockStart text then
        let body := text.drop d.blockStart.length
        (.comment, if Text.occursIn d.blockEnd body then .normal else .block)
      else (.code, .normal)

end Delimiters

end LineCensus
