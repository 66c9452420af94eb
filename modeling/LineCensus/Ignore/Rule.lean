import LineCensus.Ignore.Glob
import LineCensus.Text.Blank
import LineCensus.Value

/-! Ignore rules: one line of an ignore file each. -/
namespace LineCensus.Ignore

open Pattern

/-- What the paths of a rule have in common. -/
inductive Target where
  /-- Every path with a character that is no line feed. -/
  | any
  /-- Every path with a slash. -/
  | nested
  /-- The paths that go through the segments from their start. -/
  | route (segments : List Segment)
deriving DecidableEq, Repr

structure Rule where
  negated : Bool
  target : Target
deriving DecidableEq, Repr

inductive RuleError where
  /-- The line has no meaning. -/
  | invalid (line : List Char)
  /-- The ends of a range are in the wrong order in the expanded form of the line. -/
  | badRange (range : BadRange) (expanded : List Char)
deriving DecidableEq, Repr

/-- An offset in a text as errors show it, with line and column if the text has several lines. -/
def position (text : List Char) (offset : Nat) : String :=
  let before := text.take offset
  let line := before.count '\n' + 1
  let column := (before.reverse.takeWhile (· != '\n')).length + 1
  "position " ++ toString offset ++
    if text.contains '\n' then
      " (line " ++ toString line ++ ", column " ++ toString column ++ ")"
    else ""

def RuleError.message : RuleError → String
  | .invalid line => "Invalid git pattern: " ++ String.ofList (Text.quoted line)
  | .badRange range expanded =>
    "bad character range " ++ String.ofList (expandedInside [range.first, '-', range.last]) ++
      " at " ++ position expanded range.offset

/-- The segments between slashes, completed: a pattern with no slash but at its end may begin in any
folder, and one with a slash at its end goes on below a folder. -/
def complete (segments : List (List Char)) : Option (List (List Char)) :=
  let anyFolder := ['*', '*']
  let segments := match segments with
    | [] :: rest => rest
    | [segment] => if segment == anyFolder then [segment] else [anyFolder, segment]
    | [segment, []] => if segment == anyFolder then [segment, []] else [anyFolder, segment, []]
    | _ => segments
  match segments.getLast? with
  | none => none
  | some last => some (if last.isEmpty then segments.dropLast ++ [anyFolder] else segments)

def mergeFolders : List (List Char) → List (List Char)
  | [] => []
  | segment :: rest =>
    match mergeFolders rest with
    | [] => [segment]
    | next :: rest =>
      if segment == ['*', '*'] && next == ['*', '*'] then next :: rest else segment :: next :: rest

inductive Part where
  | fixed (text : String)
  | piece (piece : Piece)
deriving DecidableEq, Repr

def Part.expanded : Part → List Char
  | .fixed text => text.toList
  | .piece p => p.expanded

/-- The parts of the segments behind the first; `slash` tells whether a slash stands before a name. -/
def routeRestParts (slash : Bool) : List Segment → List Part
  | [] => []
  | [.folders] => [.fixed "/"]
  | .folders :: rest => .fixed "(?:/.+)?" :: routeRestParts true rest
  | .name pieces :: rest =>
    (if slash then [.fixed "/"] else []) ++ pieces.map .piece ++
      (if rest.isEmpty then [.fixed "(?:/|$)"] else routeRestParts true rest)

def routeParts : List Segment → List Part
  | .folders :: rest => .fixed "^(?:.+/)?" :: routeRestParts false rest
  | segments => .fixed "^" :: routeRestParts false segments

def firstBadRange? (offset : Nat) : List Part → Option BadRange
  | [] => none
  | .fixed text :: rest => firstBadRange? (offset + text.length) rest
  | .piece p :: rest =>
    (p.badRange? offset).or (firstBadRange? (offset + p.expanded.length) rest)

def Target.ofSegments (isFolder : Bool) (segments : List (List Char)) : Except GlobFault Target :=
  let anyFolder := ['*', '*']
  if segments == [anyFolder] then .ok (if isFolder then .nested else .any)
  else if segments == [anyFolder, ['*']] then .ok .any
  else if segments == [anyFolder, ['*'], anyFolder] then .ok .nested
  else (segments.mapM Segment.ofChars).map .route

/-- Reads a line. Blank lines, lines that start with a hash sign, a lone slash, and lines with an open
bracket are no rules. Blanks at the end count only behind a backslash. -/
def Rule.ofLine? (line : List Char) : Except RuleError (Option Rule) :=
  let text := if Text.endsWith ['\\', ' '] line then line else Text.trimEnd line
  if text.isEmpty || text.head? == some '#' || text == ['/'] then .ok none
  else
    let negated := text.head? == some '!'
    let segments := Text.splitAt '/' (if negated then text.drop 1 else text)
    match complete segments with
    | none => .error (.invalid line)
    | some completed =>
      match Target.ofSegments (segments.getLast? == some []) (mergeFolders completed) with
      | .error .danglingEscape => .error (.invalid line)
      | .error .openBracket => .ok none
      | .ok (.route route) =>
        let parts := routeParts route
        match firstBadRange? 0 parts with
        | some range => .error (.badRange range (parts.flatMap Part.expanded))
        | none => .ok (some ⟨negated, .route route⟩)
      | .ok target => .ok (some ⟨negated, target⟩)

def isPathChar (c : Char) : Bool := c != '\n'

def routeRestPattern (slash : Bool) : List Segment → Pattern
  | [] => .empty
  | [.folders] => lit "/"
  | .folders :: rest => opt (lit "/" ++ oneOrMore isPathChar) ++ routeRestPattern true rest
  | .name pieces :: rest =>
    let name := if slash then lit "/" ++ sequence pieces else sequence pieces
    if rest.isEmpty then name ++ (lit "/" <|> atEnd) else name ++ routeRestPattern true rest

def routePattern : List Segment → Pattern
  | .folders :: rest => opt (oneOrMore isPathChar ++ lit "/") ++ routeRestPattern false rest
  | segments => routeRestPattern false segments

def Target.accepts (path : List Char) : Target → Bool
  | .any => path.any isPathChar
  | .nested => path.contains '/'
  | .route segments => (routePattern segments).fits (.start path)

end LineCensus.Ignore
