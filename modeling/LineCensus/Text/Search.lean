/-! Search for a token in a text. -/
namespace LineCensus.Text

def startsWith (token text : List Char) : Bool :=
  token.isPrefixOf text

def endsWith (token text : List Char) : Bool :=
  token.isSuffixOf text

def occursIn (token : List Char) : List Char → Bool
  | [] => token.isEmpty
  | c :: rest => startsWith token (c :: rest) || occursIn token rest

/-- The text before the first occurrence of the token, or the whole text if there is none. -/
def upTo (token : List Char) : List Char → List Char
  | [] => []
  | c :: rest => if startsWith token (c :: rest) then [] else c :: upTo token rest

/-- The text after the last occurrence of `sep`, or the whole text if there is none. -/
def afterLast (sep : Char) (text : List Char) : List Char :=
  (text.reverse.takeWhile (· != sep)).reverse

end LineCensus.Text
