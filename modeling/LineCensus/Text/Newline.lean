/-! Line ends: one form for all of them, and cutting a text at every kind of them. -/
namespace LineCensus.Text

/-- Every carriage return becomes a line feed, and takes the line feed after it along. -/
def normalizeNewlines (text : List Char) : List Char :=
  (text.zip (' ' :: text)).filterMap fun (c, previous) =>
    if c == '\n' && previous == '\r' then none
    else if c == '\r' then some '\n'
    else some c

def isLineEnd (c : Char) : Bool :=
  let n := c.toNat
  (10 ≤ n && n ≤ 13) || (28 ≤ n && n ≤ 30) || n == 0x85 || n == 0x2028 || n == 0x2029

/-- The lines of a text without their ends. The end of the last line adds no empty line. -/
def lines (text : List Char) : List (List Char) :=
  (normalizeNewlines text).foldr (fun c rest =>
    if isLineEnd c then [] :: rest
    else match rest with
      | [] => [[c]]
      | line :: rest => (c :: line) :: rest) []

end LineCensus.Text
