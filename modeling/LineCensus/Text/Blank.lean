/-! Blank characters, and trimming and cutting a text at them. -/
namespace LineCensus.Text

/-- Characters that separate words and fill blank lines: the ASCII controls from tab to carriage
return and from file separator to space, and the Unicode separators. The zero-width space and the
byte order mark are not among them. -/
def isBlank (c : Char) : Bool :=
  let n := c.toNat
  (9 ≤ n && n ≤ 13) || (28 ≤ n && n ≤ 32) || n == 0x85 || n == 0xA0 || n == 0x1680 ||
    (0x2000 ≤ n && n ≤ 0x200A) || n == 0x2028 || n == 0x2029 || n == 0x202F || n == 0x205F ||
    n == 0x3000

def dropEndWhile (drop : Char → Bool) (text : List Char) : List Char :=
  (text.reverse.dropWhile drop).reverse

def trimEnd (text : List Char) : List Char :=
  dropEndWhile isBlank text

def trim (text : List Char) : List Char :=
  trimEnd (text.dropWhile isBlank)

def attach (c : Char) : List (List Char) → List (List Char)
  | [] => [[c]]
  | piece :: pieces => (c :: piece) :: pieces

/-- Cuts at every character that satisfies `cut`; the cut characters are lost, and two neighbouring
cuts have an empty piece between them. -/
def splitWhere (cut : Char → Bool) (text : List Char) : List (List Char) :=
  text.foldr (fun c pieces => if cut c then [] :: pieces else attach c pieces) [[]]

def splitAt (sep : Char) (text : List Char) : List (List Char) :=
  splitWhere (· == sep) text

def words (text : List Char) : List (List Char) :=
  (splitWhere isBlank text).filter (!·.isEmpty)

end LineCensus.Text
