import LineCensus.Pattern.Forms
import LineCensus.Text.Search

/-! The segments of an ignore pattern: what stands between two slashes, and what it matches. -/
namespace LineCensus.Ignore

open Pattern

inductive Piece where
  /-- A fixed character. -/
  | char (c : Char)
  /-- One character of a name. -/
  | anyChar
  /-- Any characters of a name. -/
  | anyRun
  /-- A whole name. -/
  | anyName
  /-- One character of the ranges between brackets, or one outside all of them. -/
  | set (negated : Bool) (inside : List Char)
deriving DecidableEq, Repr

inductive Segment where
  /-- Any folders. -/
  | folders
  /-- A name. -/
  | name (pieces : List Piece)
deriving DecidableEq, Repr

inductive GlobFault where
  /-- A backslash has no character after it. -/
  | danglingEscape
  /-- A bracket is not closed. -/
  | openBracket
deriving DecidableEq, Repr

/-- A bracket expression behind its opening bracket: whether it is negated, its inside, and what
follows it. A closing bracket that comes first stands for itself. -/
def bracket? (text : List Char) : Option (Bool × List Char × List Char) :=
  let (negated, text) := match text with
    | '!' :: rest => (true, rest)
    | '^' :: rest => (true, rest)
    | _ => (false, text)
  let (first, text) := match text with
    | ']' :: rest => ([']'], rest)
    | _ => ([], text)
  match text.dropWhile (· != ']') with
  | [] => none
  | _ :: rest => some (negated, first ++ text.takeWhile (· != ']'), rest)

def piecesFrom : Nat → List Char → Except GlobFault (List Piece)
  | 0, _ => .ok []
  | _ + 1, [] => .ok []
  | fuel + 1, c :: rest =>
    match c with
    | '*' => return .anyRun :: (← piecesFrom fuel rest)
    | '?' => return .anyChar :: (← piecesFrom fuel rest)
    | '\\' =>
      match rest with
      | [] => .error .danglingEscape
      | c :: rest => return .char c :: (← piecesFrom fuel rest)
    | '[' =>
      match bracket? rest with
      | none => .error .openBracket
      | some (negated, inside, rest) => return .set negated inside :: (← piecesFrom fuel rest)
    | c => return .char c :: (← piecesFrom fuel rest)

/-- The meaning of a segment. An asterisk alone stands for a whole name, and two alone for any
folders. -/
def Segment.ofChars (text : List Char) : Except GlobFault Segment :=
  if text == ['*', '*'] then .ok .folders
  else if text == ['*'] then .ok (.name [.anyName])
  else (piecesFrom text.length text).map .name

/-- The ranges of the inside of a bracket. A hyphen at either end stands for itself, and so does a
backslash. -/
def ranges : List Char → List (Char × Char)
  | a :: '-' :: b :: rest => (a, b) :: ranges rest
  | a :: rest => (a, a) :: ranges rest
  | [] => []

def isNameChar (c : Char) : Bool := c != '/'

/-- A piece as a pattern over a path. A bracket may match a slash. -/
def Piece.toPattern : Piece → Pattern
  | .char c => one (· == c)
  | .anyChar => one isNameChar
  | .anyRun => many isNameChar
  | .anyName => oneOrMore isNameChar
  | .set negated inside =>
    one fun c => ((ranges inside).any fun (a, b) => decide (a ≤ c) && decide (c ≤ b)) != negated

def sequence (pieces : List Piece) : Pattern :=
  pieces.foldr (fun piece p => piece.toPattern ++ p) .empty

def specialChars : List Char :=
  "()[]\x7b\x7d?*+-|^$\\.&~# \t\n\r\x0b\x0c".toList

def expandedChar (c : Char) : List Char :=
  if among specialChars c then ['\\', c] else [c]

/-- The inside of a bracket in the expanded form, where every backslash is doubled. -/
def expandedInside (inside : List Char) : List Char :=
  inside.flatMap fun c => if c == '\\' then ['\\', '\\'] else [c]

def expandedOpening (negated : Bool) : List Char :=
  if negated then ['[', '^'] else ['[']

def Piece.expanded : Piece → List Char
  | .char c => expandedChar c
  | .anyChar => "[^/]".toList
  | .anyRun => "[^/]*".toList
  | .anyName => "[^/]+".toList
  | .set negated inside => expandedOpening negated ++ expandedInside inside ++ [']']

structure BadRange where
  first : Char
  last : Char
  offset : Nat
deriving DecidableEq, Repr

def badRange? (offset : Nat) : List Char → Option BadRange
  | a :: '-' :: b :: rest =>
    if b < a then some ⟨a, b, offset⟩
    else badRange? (offset + (expandedInside [a, '-', b]).length) rest
  | a :: rest => badRange? (offset + (expandedInside [a]).length) rest
  | [] => none

def Piece.badRange? (offset : Nat) : Piece → Option BadRange
  | .set negated inside => Ignore.badRange? (offset + (expandedOpening negated).length) inside
  | _ => none

end LineCensus.Ignore
