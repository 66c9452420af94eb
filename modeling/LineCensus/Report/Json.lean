import LineCensus.Value

/-! Values as JSON in ASCII, indented by two spaces. -/
namespace LineCensus.Report.Json

def unitEscape (n : Nat) : List Char :=
  '\\' :: 'u' :: Text.hex 4 n

/-- One character of a text. Beyond the first plane it becomes two code units. -/
def escape (c : Char) : List Char :=
  let n := c.toNat
  if c == '"' then ['\\', '"']
  else if c == '\\' then ['\\', '\\']
  else if c == '\n' then ['\\', 'n']
  else if c == '\r' then ['\\', 'r']
  else if c == '\t' then ['\\', 't']
  else if n == 8 then ['\\', 'b']
  else if n == 12 then ['\\', 'f']
  else if 32 ≤ n && n ≤ 126 then [c]
  else if n < 0x10000 then unitEscape n
  else
    let m := n - 0x10000
    unitEscape (0xD800 + m / 0x400) ++ unitEscape (0xDC00 + m % 0x400)

def string (s : String) : String :=
  String.ofList ('"' :: s.toList.flatMap escape ++ ['"'])

def lineStart (depth : Nat) : String :=
  "\n" ++ String.ofList (List.replicate (2 * depth) ' ')

def block (opening closing : String) (depth : Nat) (items : List String) : String :=
  if items.isEmpty then opening ++ closing
  else
    let start := lineStart (depth + 1)
    opening ++ start ++ ("," ++ start).intercalate items ++ lineStart depth ++ closing

mutual

def render (depth : Nat) : Value → String
  | .none => "null"
  | .flag b => if b then "true" else "false"
  | .integer n => toString n
  | .number x => x.shortest
  | .text s => string s
  | .list items => block "[" "]" depth (renderItems (depth + 1) items)
  | .record fields => block "\x7b" "\x7d" depth (renderFields (depth + 1) fields)

def renderItems (depth : Nat) : List Value → List String
  | [] => []
  | item :: rest => render depth item :: renderItems depth rest

def renderFields (depth : Nat) : List (String × Value) → List String
  | [] => []
  | (name, value) :: rest => (string name ++ ": " ++ render depth value) :: renderFields depth rest

end

end LineCensus.Report.Json
