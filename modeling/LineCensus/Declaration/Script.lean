import LineCensus.Declaration.Family

/-! Declarations in brace languages without static types. -/
namespace LineCensus.Declaration.Script
open Pattern

def identifier : Identifier where
  isHead c := Text.isLetter c || c == '_' || c == '$'
  isTail c := Text.isLetter c || Text.isDigit c || c == '_' || c == '$'

def ident : Pattern := identifier.pattern

def keyword : Pattern := anyWord ["let", "const", "var"]

def identList : Pattern := ident ++ star (blanks ++ lit "," ++ blanks ++ ident)

def statementWord : Pattern :=
  anyWord ["return", "case", "default", "else", "typeof", "await", "yield", "throw", "new", "delete",
    "export", "import"]

def assign : Pattern := lit "=" ++ notAhead (one (among ['=', '>']))

/-- The start of the line, or the opening or continuation of an argument list. -/
def targetStart : Pattern := atStart <|> one (among ['(', ','])

def declarator : Family where
  name := "declarator"
  binding := .names
  lead := wordEdge ++ keyword ++ gap
  bound := identList
  tail := blanks ++ (one (among ['=', ';', ':']) <|> atEnd)

def functionParams : Family where
  name := "function_params"
  binding := .names
  lead := wordEdge ++ lit "function" ++ wordEdge ++ blanks ++ opt (lit "*") ++ blanks ++ opt ident ++
    blanks ++ lit "("
  bound := upTo (outside [')'])
  tail := lit ")"

def forBinder : Family where
  name := "for_binder"
  binding := .single
  lead := wordEdge ++ lit "for" ++ blanks ++ lit "(" ++ blanks ++ keyword ++ gap
  bound := ident
  tail := gap ++ anyWord ["of", "in"] ++ wordEdge

def arrowParams : Family where
  name := "arrow_params"
  binding := .names
  lead := lit "("
  bound := upTo (outside ['(', ')'])
  tail := lit ")" ++ blanks ++ lit "=>"

/-- The parameter of an arrow function without parentheses. -/
def arrowParam : Family where
  name := "arrow_param"
  binding := .single
  bound := ident
  tail := blanks ++ lit "=>"

/-- A field of a class or a record, or an assignment at the start of the line. -/
def classField : Family where
  name := "class_field"
  binding := .single
  lead := atStart ++ star (anyWord ["public", "private", "protected", "static", "readonly"] ++ gap) ++
    notAhead (statementWord ++ wordEdge)
  bound := opt (lit "#") ++ ident
  tail := blanks ++ one (among [':', '=']) ++ notAhead (one (among ['=', '>']))

def objectDestructuring : Family where
  name := "object_destructuring"
  binding := .names
  lead := wordEdge ++ keyword ++ blanks ++ lit "\x7b"
  bound := someUpTo ['\x7d']
  tail := lit "\x7d"

def arrayDestructuring : Family where
  name := "array_destructuring"
  binding := .names
  lead := wordEdge ++ keyword ++ blanks ++ lit "["
  bound := someUpTo [']']
  tail := lit "]"

def objectTarget : Family where
  name := "object_target"
  binding := .names
  lead := targetStart ++ blanks ++ lit "\x7b"
  bound := someUpTo ['\x7b', '\x7d']
  tail := lit "\x7d" ++ blanks ++ assign

def arrayTarget : Family where
  name := "array_target"
  binding := .names
  lead := targetStart ++ blanks ++ lit "["
  bound := someUpTo ['[', ']']
  tail := lit "]" ++ blanks ++ assign

end Script

def script : Heuristic where
  name := "script"
  identifier := Script.identifier
  families := [Script.declarator, Script.functionParams, Script.forBinder, Script.arrowParams,
    Script.arrowParam, Script.classField, Script.objectDestructuring, Script.arrayDestructuring,
    Script.objectTarget, Script.arrayTarget]

end LineCensus.Declaration
